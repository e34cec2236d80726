import Msgbox.Lib.Cycles
import Msgbox.Spec.Opening
import Msgbox.Spec.Serving

/-!
# The life cycle of a remote

The calls for a remote of a listening udp conn begin with `msg_connection_ready`, go on with its
messages, and end with `msg_connection_closed`, and then they may begin again. The remotes do not
disturb each other, in whatever order their datagrams arrive.

## Key results

- `Unheard`, `unheard_listen`: where `msg_listen` leaves a new conn
- `remote_life_cycle`: the events with the address of a remote run in such cycles, and one cycle
  ends for each call of `msg_disconnect`
-/

namespace Msgbox

open State

/-! ## What is recorded of a remote -/

/-- The events of the calls that were queued for a remote of the conn, in this order. -/
def remoteEvents (calls : List PendingCall) (c : ConnId) (a : Address) : List Event :=
  (calls.filter fun p => p.conn = c && p.remote = some a).map PendingCall.event

/-- The events of the callbacks in which the conn had the remote's address, in this order, but for
    the event that the conn listens. -/
def handedEvents (t : List Obs) (c : ConnId) (a : Address) : List Event :=
  (t.filterMap fun o => match o with
    | .called k p =>
      if p.conn = c ∧ p.event ≠ .listening ∧ k.remoteAddress = a then some p.event else none
    | _ => none).reverse

/-- The calls of `msg_disconnect` for a remote of the conn. -/
def partings (t : List Obs) (c : ConnId) (a : Address) : Nat := t.count (.disconnected c a)

variable {s s' : State} {i : Input} {c : ConnId} {t : List Obs}

/-- The events of one remote in a longer list of calls follow those of the shorter. -/
theorem remoteEvents_append (calls calls' : List PendingCall) (c : ConnId) (a : Address) :
    remoteEvents (calls ++ calls') c a = remoteEvents calls c a ++ remoteEvents calls' c a := by
  rw [remoteEvents, List.filter_append, List.map_append]
  rfl

/-- The calls for the conn are in what tells of it. -/
theorem remoteEvents_record (t : List Obs) (c : ConnId) (a : Address) :
    remoteEvents (queuedCalls (t.filter (Obs.tells c))) c a = remoteEvents (queuedCalls t) c a := by
  induction t with
  | nil => rfl
  | cons o t ih =>
    by_cases ho : o.tells c = true
    · rw [record_told ho]
      cases o with
      | queued p =>
        rw [queuedCalls_queued, queuedCalls_queued, remoteEvents_append, remoteEvents_append, ih]
      | _ => rw [queuedCalls_cons rfl, queuedCalls_cons rfl, ih]
    · rw [Bool.not_eq_true] at ho
      rw [record_cons ho, ih]
      cases o with
      | queued p =>
        have hp : ¬ p.conn = c := of_decide_eq_false ho
        rw [queuedCalls_queued, remoteEvents_append]
        simp [remoteEvents, hp]
      | _ => rw [queuedCalls_cons rfl]

/-- The record of `c` decides its partings. -/
private theorem partings_record (t : List Obs) (c : ConnId) (a : Address) :
    partings (t.filter (Obs.tells c)) c a = partings t c a :=
  List.count_filter (decide_eq_true rfl)

/-- A call for a remote adds its event to those of the remote. -/
theorem remoteEvents_single {p : PendingCall} {a : Address} (hconn : p.conn = c)
    (hremote : p.remote = some a) (b : Address) :
    remoteEvents [p] c b = if b = a then [p.event] else [] := by
  by_cases hb : b = a
  · simp [remoteEvents, hconn, hremote, hb]
  · simp [remoteEvents, hconn, hremote, hb, Ne.symm hb]

/-- A call that was made is one of the calls made. -/
private theorem mem_calledCalls {k : Conn} {p : PendingCall} (h : Obs.called k p ∈ t) :
    p ∈ calledCalls t := by
  rw [calledCalls, List.mem_reverse, List.mem_filterMap]
  exact ⟨_, h, rfl⟩

/-- What tells of `c` is in its record if it was observed. -/
theorem mem_record {o : Obs} (ho : o.tells c = true) : o ∈ t.filter (Obs.tells c) ↔ o ∈ t := by
  simp [ho]

/-! ## Cycles -/

/-- The events of the remote run in cycles, the last of which goes on exactly if the remote is
    served, and the cycles that are over were ended by `msg_disconnect`. -/
structure Cycling (c : ConnId) (s : State) (a : Address) : Prop where
  cycles : Cycles .connectionReady .connectionClosed (fun e => e.isMessage = true)
    (remoteEvents (queuedCalls s.trace) c a) (serving s c a)
  closings : (remoteEvents (queuedCalls s.trace) c a).count .connectionClosed =
    partings s.trace c a

variable {a b : Address} {p : PendingCall} {bytes : List UInt8}

/-- The event of a frame that is no close is a message event. -/
private theorem isMessage_of_kind {kind : MsgType} {event : Event} (h : kind.event = some event) :
    event.isMessage = true := by
  cases kind <;>
    first | exact absurd h.symm (Option.some_ne_none event) | exact Option.some.inj h ▸ rfl

/-- Nothing happens for the remote. -/
theorem Cycling.same (h : Cycling c s a)
    (hevents : remoteEvents (queuedCalls s'.trace) c a = remoteEvents (queuedCalls s.trace) c a)
    (hserving : serving s' c a = serving s c a)
    (hpartings : partings s'.trace c a = partings s.trace c a) : Cycling c s' a := by
  constructor
  · rw [hevents, hserving]
    exact h.cycles
  · rw [hevents, hpartings]
    exact h.closings

/-- What is aloof from `c` keeps the cycle of each of its remotes. -/
theorem Cycling.aloof (h : Cycling c s a) (haloof : Aloof c s i s s') : Cycling c s' a := by
  refine h.same ?_ ?_ ?_
  · rw [← remoteEvents_record, haloof.record, remoteEvents_record]
  · unfold serving
    rw [haloof.heard a]
    cases hheard : heard s.trace c a with
    | false => rfl
    | true => rw [haloof.lookup a hheard]
  · rw [← partings_record, haloof.record, partings_record]

/-- What a datagram adds to the record of a remote. -/
theorem hears_record (hbrings : p.Brings c a bytes) (hhears : Hears c s s' a bytes p)
    (b : Address) :
    heard s'.trace c b = (decide (b = a) || heard s.trace c b) ∧
      partings s'.trace c b = partings s.trace c b ∧
      remoteEvents (queuedCalls s'.trace) c b = remoteEvents (queuedCalls s.trace) c b ++
        (if b = a then
          (if s.connStatus.lookup a = none then [.connectionReady] else []) ++
          [p.event] else []) := by
  refine ⟨?_, ?_, ?_⟩
  · rw [← heard_filter, hhears.record, ← heard_filter s.trace, greeting]
    by_cases hb : b = a
    · subst hb
      split <;> simp [heard]
    · split <;> simp [heard, hb, Ne.symm hb]
  · rw [← partings_record, hhears.record, ← partings_record s.trace, greeting]
    split <;> simp [partings]
  · have hready := remoteEvents_single (p := readyCall c a) (c := c) rfl rfl b
    have hmessage := remoteEvents_single hbrings.conn hbrings.remote b
    rw [← remoteEvents_record, hhears.record, ← remoteEvents_record s.trace, greeting,
      queuedCalls_queued, remoteEvents_append, hmessage]
    split
    · rw [List.singleton_append, queuedCalls_queued, queuedCalls_cons rfl, remoteEvents_append,
        hready, List.append_assoc]
      split <;> rfl
    · rw [List.nil_append, queuedCalls_cons rfl]
      rfl

/-- A datagram of `a`, which is new or was heard before, is the next event of the cycle of `a`
    only. -/
theorem Cycling.hears (h : Cycling c s b)
    (hknown : heard s.trace c a = true ∨ s.connStatus.lookup a = none)
    (hbrings : p.Brings c a bytes) (hhears : Hears c s s' a bytes p) : Cycling c s' b := by
  obtain ⟨hheard, hpartings, hevents⟩ := hears_record hbrings hhears b
  by_cases hb : b = a
  · subst hb
    rw [if_pos rfl] at hevents
    have hcycles := h.cycles
    have hmessage := isMessage_of_kind hbrings.event
    obtain ⟨sid, hsid, -, -⟩ := hhears.known
    have hserving : serving s' c b = true := by
      simp [serving, hheard, hsid]
    constructor
    · rw [hserving, hevents]
      -- A remote without an entry is not served, and is greeted first.
      by_cases hnone : s.connStatus.lookup b = none
      · rw [serving, hnone, Option.isSome_none, Bool.and_false] at hcycles
        rw [if_pos hnone, ← List.append_assoc]
        exact hcycles.opens.goes hmessage
      · have hlive : serving s c b = true := by
          rw [serving, hknown.resolve_right hnone, Bool.true_and, Option.isSome_iff_ne_none]
          exact hnone
        rw [hlive] at hcycles
        rw [if_neg hnone, List.nil_append]
        exact hcycles.goes hmessage
    · have hclosed : p.event ≠ .connectionClosed := by
        intro heq
        rw [heq] at hmessage
        exact Bool.noConfusion hmessage
      rw [hevents, hpartings, List.count_append, h.closings]
      split <;> simp [hclosed]
  · refine h.same ?_ ?_ hpartings
    · rw [hevents, if_neg hb, List.append_nil]
    · rw [serving, hheard, hhears.lookup b hb, decide_eq_false hb, Bool.false_or]
      rfl

/-- A parting leaves what was heard. -/
theorem Parts.heard (h : Parts c s s' p) (b : Address) :
    heard s'.trace c b = heard s.trace c b := by
  rw [← heard_filter, h.record, ← heard_filter s.trace]
  simp [Msgbox.heard]

/-- A parting ends the cycle of the remote that the conn is serving. -/
theorem Cycling.parts (h : Cycling c s b)
    (hserving : serving s c (s.conn c).remoteAddress = true) (hparts : Parts c s s' p) :
    Cycling c s' b := by
  have hcall : p.conn = c ∧ p.remote = some (s.conn c).remoteAddress ∧
      p.event = .connectionClosed := by
    rw [hparts.call]
    exact ⟨rfl, rfl, rfl⟩
  have hheard := hparts.heard b
  obtain ⟨-, -, -, hrecord, htable, -⟩ := hparts
  generalize (s.conn c).remoteAddress = a at hserving hcall hrecord htable
  have hevents : remoteEvents (queuedCalls s'.trace) c b =
      remoteEvents (queuedCalls s.trace) c b ++ if b = a then [.connectionClosed] else [] := by
    rw [← remoteEvents_record, hrecord, ← remoteEvents_record s.trace, queuedCalls_queued,
      queuedCalls_cons rfl, remoteEvents_append, remoteEvents_single hcall.1 hcall.2.1, hcall.2.2]
  have hpartings : partings s'.trace c b = partings s.trace c b + if b = a then 1 else 0 := by
    rw [← partings_record, hrecord, ← partings_record s.trace, partings, List.count_cons_of_ne
      (by simp), List.count_cons]
    by_cases hb : b = a
    · simp [partings, hb]
    · simp [partings, hb, Ne.symm hb]
  by_cases hb : b = a
  · subst hb
    have hcycles := h.cycles
    rw [hserving] at hcycles
    rw [if_pos rfl] at hevents hpartings
    have hover : serving s' c b = false := by
      rw [serving, htable, AList.lookup_erase, Option.isSome_none, Bool.and_false]
    constructor
    · rw [hover, hevents]
      exact hcycles.closes
    · rw [hevents, hpartings, List.count_append, h.closings]
      rfl
  · rw [if_neg hb] at hevents hpartings
    refine h.same (by rw [hevents, List.append_nil]) ?_ hpartings
    rw [serving, hheard, htable, AList.lookup_erase_ne hb]
    rfl

/-- Making a call leaves the cycles, which are about the queue. -/
theorem Cycling.calls (h : Cycling c s b) (rest : List PendingCall) (junk : Junk) :
    Cycling c (s.makeCall p rest junk) b := by
  rw [makeCall_eq]
  refine h.same ?_ ?_ ?_
  · rw [queuedCalls_cons rfl]
  · simp [serving, heard]
  · simp [partings]

/-- A step that serves the remotes keeps their cycles. -/
theorem Cycling.turn (h : Cycling c s b) (hturn : Turn c s i s') : Cycling c s' b := by
  cases hturn with
  | aloof haloof => exact h.aloof haloof
  | hears _ _ _ _ hknown hbrings hhears => exact h.hears hknown hbrings hhears
  | parts _ hserving hparts => exact h.parts hserving hparts
  | calls _ _ _ _ heq =>
    rw [heq]
    exact h.calls _ _

/-! ## The calls for the remotes -/

/-- The call that a datagram brings names its sender. -/
private theorem told_of_brings (hbrings : p.Brings c a bytes) (hproto : a.protocolType = .udp) :
    p.Told := by
  obtain ⟨data, hdata, haddr⟩ := hbrings.data
  refine .inr ⟨a, hbrings.remote, hproto, fun hlistening => ?_, fun data' hdata' => ?_⟩
  · have hmessage := isMessage_of_kind hbrings.event
    rw [hlistening] at hmessage
    exact Bool.noConfusion hmessage
  · obtain rfl := Option.some.inj (hdata.symm.trans hdata')
    exact haddr

/-- So does the ready call of a remote. -/
private theorem told_readyCall (hproto : a.protocolType = .udp) : (readyCall c a).Told := by
  refine .inr ⟨a, rfl, hproto, Event.noConfusion, fun data hdata => ?_⟩
  rw [← Option.some.inj hdata]
  rfl

/-- A conn that serves listens for udp, whatever its address is at the moment. -/
private theorem isListeningUdp_of (h : Serves c s)
    (hproto : (s'.conn c).remoteAddress.protocolType = .udp)
    (hflag : (s'.conn c).forListening = (s.conn c).forListening) : s'.isListeningUdp c = true := by
  have hlistening := h.listening
  simp only [isListeningUdp, Bool.and_eq_true] at hlistening
  rw [isListeningUdp, hflag, hlistening.1, Bool.true_and, Conn.protocolType, hproto]
  rfl

/-- The record of a step decides what is known of the calls. -/
private theorem Serves.of_record (h : Serves c s) (new : List Obs)
    (hnext : s.nextConn ≤ s'.nextConn) (hproto : (s'.conn c).remoteAddress.protocolType = .udp)
    (hflag : (s'.conn c).forListening = (s.conn c).forListening)
    (hrecord : s'.trace.filter (Obs.tells c) = new ++ s.trace.filter (Obs.tells c))
    (hudp : ∀ a bytes, Obs.datagram c a bytes ∈ new → a.protocolType = .udp)
    (htold : ∀ p, Obs.queued p ∈ new → p.Told)
    (hcalled : ∀ k p, Obs.called k p ∈ new → p.remote.all (· = k.remoteAddress) = true) :
    Serves c s' where
  made := h.made.trans_le hnext
  listening := isListeningUdp_of h hproto hflag
  udp a ha := by
    rw [← heard_filter, hrecord, heard, List.any_append, Bool.or_eq_true] at ha
    rcases ha with hnew | hold
    -- The address is heard for the first time: the datagram is a new observation.
    · obtain ⟨o, ho, hmatch⟩ := List.any_eq_true.mp hnew
      cases o with
      | datagram c' a' bytes =>
        simp only [Bool.and_eq_true, decide_eq_true_eq] at hmatch
        exact hmatch.2 ▸ hudp a' bytes (hmatch.1 ▸ ho)
      | _ => exact Bool.noConfusion hmatch
    · exact h.udp a ((heard_filter s.trace c a).symm.trans hold)
  told p hp hconn := by
    have htells : (Obs.queued p).tells c = true := decide_eq_true hconn
    rw [← mem_record htells, hrecord] at hp
    rcases List.mem_append.mp hp with hnew | hold
    · exact htold p hnew
    · exact h.told p ((mem_record htells).mp hold) hconn
  called k p hp hconn := by
    have htells : (Obs.called k p).tells c = true := decide_eq_true hconn
    rw [← mem_record htells, hrecord] at hp
    rcases List.mem_append.mp hp with hnew | hold
    · exact hcalled k p hnew
    · exact h.called k p ((mem_record htells).mp hold) hconn

/-- A call for the conn has the address of its remote when it is made. -/
theorem Serves.loaded (h : Serves c s) (junk : Junk) (hconn : p.conn = c)
    (hqueued : Obs.queued p ∈ s.trace)
    (hremote : p.data = none → p.remote.all (· = (s.conn c).remoteAddress) = true) :
    p.remote.all (· = (s.loaded p junk).remoteAddress) = true ∧
      (s.loaded p junk).remoteAddress.protocolType = .udp := by
  have hudp := h.isUdp
  cases hdata : p.data with
  | none =>
    rw [loaded_of_no_data s p junk (.inl hdata), hconn]
    exact ⟨hremote hdata, hudp⟩
  | some data =>
    obtain ⟨-, hnone, -⟩ | ⟨a, ha, hproto, -, hcarries⟩ := h.told p hqueued hconn
    · exact absurd (hdata.symm.trans hnone) (Option.some_ne_none data)
    · have hloaded := (loaded_of_udp s p junk hdata (hconn ▸ hudp)).2
      rw [hcarries data hdata, Option.getD_some] at hloaded
      rw [hloaded, ha]
      exact ⟨decide_eq_true rfl, hproto⟩

/-- A step that serves the remotes leaves the conn as one that does. -/
theorem Serves.turn (h : Serves c s) (hs : Sound s) (hturn : Turn c s i s') : Serves c s' := by
  have hproto : (s.conn c).remoteAddress.protocolType = .udp := h.isUdp
  cases hturn with
  | aloof haloof =>
    -- Nothing is recorded about the conn.
    refine h.of_record [] haloof.next (haloof.address ▸ hproto) haloof.flag haloof.record ?_ ?_ ?_
    · exact fun _ _ ho => absurd ho List.not_mem_nil
    · exact fun _ ho => absurd ho List.not_mem_nil
    · exact fun _ _ ho => absurd ho List.not_mem_nil
  | @hears r a bytes p _ _ _ hudp _ hbrings hhears =>
    -- A first datagram is greeted with one `msg_connection_ready` for its sender.
    have hgreeting : ∀ o ∈ greeting c s a, o = .queued (readyCall c a) := by
      intro o ho
      unfold greeting at ho
      split at ho
      · exact List.mem_singleton.mp ho
      · exact absurd ho List.not_mem_nil
    have hnew : ∀ o ∈ .queued p :: (greeting c s a ++ [.datagram c a bytes]), o = .queued p ∨
        o = .queued (readyCall c a) ∨ o = .datagram c a bytes := by
      intro o ho
      rcases List.mem_cons.mp ho with heq | ho
      · exact .inl heq
      · rcases List.mem_append.mp ho with ho | ho
        · exact .inr (.inl (hgreeting o ho))
        · exact .inr (.inr (List.mem_singleton.mp ho))
    refine h.of_record (.queued p :: (greeting c s a ++ [.datagram c a bytes])) hhears.next.ge
      (hhears.address ▸ hudp) hhears.flag (by rw [hhears.record]; simp) ?_ ?_ ?_
    · intro b bytes' ho
      rcases hnew _ ho with heq | heq | heq
      · exact Obs.noConfusion heq
      · exact Obs.noConfusion heq
      · injection heq with _ heq
        exact heq ▸ hudp
    · intro p' ho
      rcases hnew _ ho with heq | heq | heq
      · exact Obs.queued.inj heq ▸ told_of_brings hbrings hudp
      · exact Obs.queued.inj heq ▸ told_readyCall hudp
      · exact Obs.noConfusion heq
    · intro k p' ho
      rcases hnew _ ho with heq | heq | heq <;> exact Obs.noConfusion heq
  | @parts w p _ _ hparts =>
    -- A closing call tells the remote it is for, if the address was given.
    refine h.of_record [.queued p, .disconnected c (s.conn c).remoteAddress] hparts.next.ge
      (hparts.conn ▸ hproto) (by rw [hparts.conn]) hparts.record ?_ ?_ ?_
    · simp
    · intro p' hp'
      obtain rfl : p' = p := by simpa using hp'
      rw [hparts.call]
      exact .inr ⟨_, rfl, hproto, Event.noConfusion, fun _ hdata =>
        absurd hdata.symm (Option.some_ne_none _)⟩
    · simp
  | @calls p rest junk _ hconn hphase hremote heq =>
    have hqueued := hs.allocated.pending p (by simp [pending, hphase, Phase.saved])
    -- The status of the call is restored, so the callback sees the address of its remote.
    have hloaded := h.loaded junk hconn hqueued hremote
    rw [heq, makeCall_eq]
    refine h.of_record [.called (s.loaded p junk) p] (Nat.le_refl _) ?_ ?_ ?_ ?_ ?_ ?_
    · simpa [hconn] using hloaded.2
    · have hflag := (loaded_fields s p junk).2.2.1
      rw [hconn] at hflag
      simpa [hconn] using hflag
    · exact record_told (o := .called (s.loaded p junk) p) (decide_eq_true hconn) _
    · simp
    · simp
    · intro k p' hp'
      obtain ⟨rfl, rfl⟩ := Obs.called.inj (List.mem_singleton.mp hp')
      exact hloaded.1

/-- The callbacks with the remote's address are those for the calls that are for the remote. -/
private theorem handedEvents_eq (h : ∀ k p, Obs.called k p ∈ t → p.conn = c →
      p.Told ∧ p.remote.all (· = k.remoteAddress) = true) :
    handedEvents t c a = remoteEvents (calledCalls t) c a := by
  induction t with
  | nil => rfl
  | cons o t ih =>
    have ih := ih fun k p hp => h k p (List.mem_cons_of_mem o hp)
    cases o with
    | called k p =>
      have hhead : handedEvents (.called k p :: t) c a = handedEvents t c a ++
          if p.conn = c ∧ p.event ≠ .listening ∧ k.remoteAddress = a then [p.event] else [] := by
        unfold handedEvents
        rw [List.filterMap_cons]
        by_cases hcond : p.conn = c ∧ p.event ≠ .listening ∧ k.remoteAddress = a
        · simp [if_pos hcond]
        · simp [if_neg hcond]
      rw [hhead, ih, calledCalls_called, remoteEvents_append]
      congr 1
      by_cases hconn : p.conn = c
      · obtain ⟨htold, hremote⟩ := h k p List.mem_cons_self hconn
        obtain ⟨hnone, -, hlistening⟩ | ⟨b, hb, -, hlistening, -⟩ := htold
        · simp [remoteEvents, hnone, hlistening]
        · rw [hb, Option.all_some, decide_eq_true_eq] at hremote
          rw [remoteEvents_single hconn hb, hremote]
          simp [hconn, hlistening, eq_comm]
      · simp [remoteEvents, hconn]
    | _ => exact ih

/-! ## The beginning -/

/-- The conn listens for udp, and nothing is recorded of it but that. -/
structure Unheard (c : ConnId) (s : State) : Prop where
  made : c < s.nextConn
  listening : s.isListeningUdp c = true
  record : s.trace.filter (Obs.tells c) = [.queued ⟨c, .listening, none, .nothing, .other⟩]

/-- A conn that has heard nothing yet serves. -/
theorem Unheard.serves (h : Unheard c s) : Serves c s := by
  have hmem : ∀ o, o.tells c = true → o ∈ s.trace →
      o = .queued ⟨c, .listening, none, .nothing, .other⟩ := by
    intro o ho hin
    rw [← mem_record ho, h.record] at hin
    exact List.mem_singleton.mp hin
  refine ⟨h.made, h.listening, fun a ha => ?_, fun p hp hconn => ?_, fun k p hp hconn => ?_⟩
  · rw [← heard_filter, h.record] at ha
    exact Bool.noConfusion ha
  · have heq := hmem (.queued p) (decide_eq_true hconn) hp
    exact Obs.queued.inj heq ▸ .inl ⟨rfl, rfl, rfl⟩
  · have heq := hmem (.called k p) (decide_eq_true hconn) hp
    exact Obs.noConfusion heq

/-- Each of its remotes is before its first cycle. -/
private theorem Unheard.cycling (h : Unheard c s) (a : Address) : Cycling c s a := by
  have hheard : heard s.trace c a = false := by
    rw [← heard_filter, h.record]
    rfl
  have hevents : remoteEvents (queuedCalls s.trace) c a = [] := by
    rw [← remoteEvents_record, h.record]
    simp [remoteEvents, queuedCalls, Obs.queuedCall, PendingCall.remote]
  constructor
  · rw [serving, hheard, hevents, Bool.false_and]
    exact .nil
  · rw [← partings_record, h.record, hevents]
    rfl

/-- What is recorded tells of conns that were made. -/
def Recorded (s : State) : Prop := ∀ c, ∀ o ∈ s.trace, o.tells c = true → c < s.nextConn

/-- An observation that tells of conns made keeps the records within them. -/
private theorem recorded_cons {o : Obs} (h : Recorded s) (hnext : s.nextConn ≤ s'.nextConn)
    (htrace : s'.trace = o :: s.trace) (ho : ∀ c, o.tells c = true → c < s'.nextConn) :
    Recorded s' := by
  intro c o' ho' htells
  rw [htrace] at ho'
  rcases List.mem_cons.mp ho' with rfl | hin
  · exact ho c htells
  · exact (h c o' hin htells).trans_le hnext

/-- So does a step that observes nothing. -/
private theorem recorded_same (h : Recorded s) (hnext : s.nextConn ≤ s'.nextConn)
    (htrace : s'.trace = s.trace) : Recorded s' :=
  fun c o ho htells => (h c o (htrace ▸ ho) htells).trans_le hnext

/-- A call is queued for a conn that was made. -/
private theorem recorded_queue (h : Recorded s) (ha : Allocated s')
    (hnext : s.nextConn ≤ s'.nextConn)
    (htrace : s'.trace = .queued p :: s.trace) : Recorded s' := by
  refine recorded_cons h hnext htrace fun c htells => ?_
  obtain rfl : p.conn = c := of_decide_eq_true htells
  exact ha.queued p (htrace ▸ List.mem_cons_self)

/-- Every effect tells of conns that were made. -/
private theorem recorded_effect {s₀ : State} (hs₀ : Sound s₀) (hs : Sound s) (hs' : Sound s')
    (hle : s₀.nextConn ≤ s.nextConn) (h : Recorded s) (heffect : Effect s₀ i s s') :
    Recorded s' := by
  -- Most observations are about no conn at all.
  have hquiet : ∀ {o : Obs}, (∀ c, o.tells c = false) → ∀ c, o.tells c = true → c < s'.nextConn :=
    fun ho c htells => Bool.noConfusion (htells.symm.trans (ho c))
  cases heffect with
  | early hearly =>
    cases hearly with
    | note o ho hnotes =>
      refine recorded_cons h (Nat.le_refl _) rfl ?_
      cases hnotes with
      | @disconnected c' w hcalls =>
        intro c htells
        obtain rfl : c' = c := of_decide_eq_true htells
        -- Only a live conn can be disconnected.
        have hlive := hcalls.admits
        simp only [admits, isLive, Bool.and_eq_true, decide_eq_true_eq] at hlive
        exact hlive.1.trans_le hle
      | _ => exact hquiet fun _ => rfl
    | header => exact recorded_cons h (Nat.le_refl _) rfl (hquiet fun _ => rfl)
    | ready => exact recorded_queue h hs'.allocated (Nat.le_refl _) rfl
    | error => exact recorded_queue h hs'.allocated (Nat.le_refl _) rfl
    | _ => exact recorded_same h (Nat.le_refl _) rfl
  | oneWay | get | failedGet => exact recorded_cons h (Nat.le_refl _) rfl (hquiet fun _ => rfl)
  | @datagram c' r d hreads =>
    refine recorded_cons (o := .datagram c' ⟨d.ip, d.port, .udp⟩ d.bytes) h (Nat.le_refl _) rfl ?_
    intro c htells
    obtain rfl : c' = c := of_decide_eq_true htells
    exact (hreads.allocated hs₀.allocated).trans_le hle
  -- A new conn takes the next index, and with it its own record.
  | opened => exact recorded_cons h (Nat.le_succ _) rfl (hquiet fun _ => rfl)
  | listening | expire => exact recorded_queue h hs'.allocated (Nat.le_refl _) rfl
  | removal =>
    obtain ⟨index, heq⟩ := removalPass_eq s
    rw [heq]
    exact recorded_same h (Nat.le_refl _) rfl
  | @call p rest junk _ _ hphase =>
    rw [makeCall_eq]
    refine recorded_cons (o := .called (s.loaded p junk) p) h (Nat.le_refl _) rfl fun c htells => ?_
    obtain rfl : p.conn = c := of_decide_eq_true htells
    -- A pending call was queued, so its conn is allocated.
    apply hs.allocated.queued p
    exact hs.allocated.pending p (by simp [pending, hphase, Phase.saved])
  | finish =>
    rw [finishCall_eq]
    exact recorded_same h (Nat.le_refl _) rfl
  | _ => exact recorded_same h (Nat.le_refl _) rfl

/-- So does the last effect of a step. -/
private theorem recorded_final {s₀ : State} (hs' : Sound s') (h : Recorded s)
    (hfinal : Final s₀ i s s') :
    Recorded s' := by
  cases hfinal with
  | @drop c event ph =>
    refine recorded_queue h hs'.allocated ?_ ((localDisconnect_trace s c event))
    exact (localDisconnect_nextConn s c event).ge
  | @fail k msg =>
    have hopened : Recorded (s.allocConn k) :=
      recorded_cons h (Nat.le_succ _) rfl fun _ htells => Bool.noConfusion htells
    exact recorded_queue hopened hs'.allocated (Nat.le_refl _) rfl
  | _ => exact recorded_queue h hs'.allocated (Nat.le_refl _) rfl

/-- In every run the records are about conns that were made. -/
theorem reach_recorded {ok : State → Input → Prop} (h : machine.Reach ok s) : Recorded s := by
  refine (reach_sound_invariant Recorded ?_ ?_ ?_ h).2
  · exact fun _ o ho => absurd ho List.not_mem_nil
  · intro s₀ s s' i _ hs₀ _ hsteps hs hinv heffect
    exact recorded_effect hs₀ hs (sound_effect hs₀ hsteps hs heffect) (effects_nextConn_le hsteps)
      hinv heffect
  · intro s₀ s s' i _ hs₀ _ hsteps hs hinv hfinal
    exact recorded_final (sound_final hs₀ hsteps hs hfinal) hinv hfinal

/-- Where `msg_listen` leaves a new udp conn. -/
theorem unheard_listen (h : Recorded s) {address : CString} {callback : Nat} {o : OpenIn}
    (hopens : Input.openFails address true o = false)
    (hudp : (parseAddressStr address ⟨0, 0, .other⟩).1.protocolType = .udp) :
    Unheard s.nextConn (s.msgListen address callback o) := by
  unfold msgListen
  rcases openSocket_cases s address null callback true o with ⟨hfails, -⟩ | ⟨-, sock, contents, heq⟩
  · exact Bool.noConfusion (hfails.symm.trans hopens)
  · have hwaits : connecting address true o = false := by simp [connecting]
    rw [heq, finishOpen, hwaits, if_neg Bool.false_ne_true, if_pos rfl]
    refine ⟨Nat.lt_succ_self _, ?_, ?_⟩
    · simp [isListeningUdp, enterConn, openedConn, Conn.protocolType, hudp]
    · refine (record_told (o := .queued _) (decide_eq_true rfl) _).trans (congrArg _ ?_)
      refine (record_cons (o := .opened s.nextConn) rfl _).trans ?_
      -- The conn is new, so that nothing tells of it.
      apply List.filter_eq_nil_iff.mpr
      intro o' ho' htells
      exact absurd (h s.nextConn o' ho' htells) (Nat.lt_irrefl _)

/-! ## Runs -/

/-- In a run that serves the remotes, the conn is one that does, and their events run in cycles. -/
theorem path_cycling {s₁ s₂ : State} (h : machine.Reach (fun s i => plain s i = true) s₁)
    (hunheard : Unheard c s₁) (hpath : machine.Path (fun s i => servesRemotes c s i = true) s₁ s₂) :
    Serves c s₂ ∧ ∀ a, Cycling c s₂ a := by
  refine hpath.keeps (fun s i hok => (servesRemotes_base hok).1)
    (fun s => Serves c s ∧ ∀ a, Cycling c s a) h ⟨hunheard.serves, hunheard.cycling⟩ ?_
  rintro s i s' hreach ⟨hserves, hcycling⟩ hok hstep
  have hs := reach_sound hreach
  have hturn := turn_step hok hs hserves hstep
  exact ⟨hserves.turn hs hturn, fun a => (hcycling a).turn hturn⟩

/-- So it is for every udp conn that `msg_listen` makes. -/
theorem listen_cycling {s₀ s₁ s₂ : State} {address : CString} {callback : Nat} {o : OpenIn}
    (h : machine.Reach (fun s i => plain s i = true) s₀)
    (hlisten : step s₀ (.app (.listen address callback o)) = some s₁)
    (hopens : Input.openFails address true o = false)
    (hudp : (parseAddressStr address ⟨0, 0, .other⟩).1.protocolType = .udp)
    (hpath : machine.Path (fun s i => servesRemotes s₀.nextConn s i = true) s₁ s₂) :
    machine.Reach (fun s i => plain s i = true) s₂ ∧ Serves s₀.nextConn s₂ ∧
      ∀ a, Cycling s₀.nextConn s₂ a := by
  have hreach : machine.Reach (fun s i => plain s i = true) s₁ :=
    h.step (i := .app (.listen address callback o)) rfl hlisten
  obtain ⟨-, -, rfl⟩ := step_app hlisten
  have hunheard : Unheard s₀.nextConn (s₀.msgListen address callback o) :=
    unheard_listen (reach_recorded h) hopens hudp
  exact ⟨hpath.reach (fun _ _ hok => (servesRemotes_base hok).1) hreach,
    path_cycling hreach hunheard hpath⟩

/-- What was handed over and what waits are the events that were queued for the remote. -/
theorem Serves.handedEvents_append (h : Serves c s)
    (hreach : machine.Reach (fun s i => plain s i = true) s) (a : Address) :
    handedEvents s.trace c a ++ remoteEvents s.pending c a =
      remoteEvents (queuedCalls s.trace) c a := by
  -- Callbacks are made in the order their calls were queued.
  have horder := (reach_inOrder hreach).order
  have hhanded : handedEvents s.trace c a = remoteEvents (calledCalls s.trace) c a := by
    apply handedEvents_eq
    intro k p hp hconn
    refine ⟨h.told p ?_ hconn, h.called k p hp hconn⟩
    rw [← mem_queuedCalls, horder]
    exact List.mem_append_left _ (mem_calledCalls hp)
  rw [hhanded, horder, remoteEvents_append]

/-- For every udp conn that `msg_listen` made, and every run from there that serves its remotes: the
    events of the callbacks with the address of a remote run in cycles, the last of which may have
    only begun. They are those that were queued for the remote, less the ones that wait, and among
    those that were queued there is one `msg_connection_closed` for each call of `msg_disconnect`
    for the remote. -/
theorem remote_life_cycle {s₀ s₁ s₂ : State} {address : CString} {callback : Nat} {o : OpenIn}
    (h : machine.Reach (fun s i => plain s i = true) s₀)
    (hlisten : step s₀ (.app (.listen address callback o)) = some s₁)
    (hopens : Input.openFails address true o = false)
    (hudp : (parseAddressStr address ⟨0, 0, .other⟩).1.protocolType = .udp)
    (hpath : machine.Path (fun s i => servesRemotes s₀.nextConn s i = true) s₁ s₂) (a : Address) :
    (∃ (full : List (List Event)) (last : List Event),
      handedEvents s₂.trace s₀.nextConn a = full.flatten ++ last ∧
      (∀ events ∈ full, IsCycle .connectionReady .connectionClosed (fun e => e.isMessage = true)
        events) ∧ IsBegun .connectionReady (fun e => e.isMessage = true) last) ∧
    (handedEvents s₂.trace s₀.nextConn a ++
        remoteEvents s₂.pending s₀.nextConn a).count .connectionClosed =
      partings s₂.trace s₀.nextConn a := by
  obtain ⟨hreach, hserves, hcycling⟩ := listen_cycling h hlisten hopens hudp hpath
  have hqueued := hserves.handedEvents_append hreach a
  constructor
  -- The handed events are a prefix of the cycles queued.
  · have hprefix : handedEvents s₂.trace s₀.nextConn a <+:
        remoteEvents (queuedCalls s₂.trace) s₀.nextConn a := ⟨_, hqueued⟩
    obtain ⟨live, hcycles⟩ := (hcycling a).cycles.of_prefix hprefix
    exact hcycles.split
  · rw [hqueued]
    exact (hcycling a).closings

/-- A remote sends a message, and the callback for it disconnects. -/
theorem remote_life_cycle_closed :
    ∃ s₁ s₂, machine.Path (fun s i => servesRemotes 0 s i = true) s₁ s₂ ∧
      handedEvents s₂.trace 0 ⟨1, 1, .udp⟩ = [.connectionReady, .message, .connectionClosed] ∧
      (handedEvents s₂.trace 0 ⟨1, 1, .udp⟩ ++
          remoteEvents s₂.pending 0 ⟨1, 1, .udp⟩).count .connectionClosed =
        partings s₂.trace 0 ⟨1, 1, .udp⟩ := by
  let address : CString := ['u', 'd', 'p', ':', '/', '/', '*', ':', '8', '0']
  have hrun : ((step State.init (.app (.listen address 0 { socket := .ok 3 }))).bind fun s₁ =>
      (machine.runFrom (servesRemotes 0) s₁
        [.env (.datagram 3 messageDatagram), .runloop (.ready [{ pollin := true }]), .visit none,
          .read { peek := .upTo 8 }, .read {}, .endPoll, .timeouts 0, .deliver {}, .ret,
          .deliver {}, .ret, .deliver {}, .app (.disconnect 0 {}), .ret, .deliver {},
          .runloop .nothing, .timeouts 0, .deliver {}, .ret]).map fun s₂ : State => handedEvents
          s₂.trace 0 ⟨1, 1, .udp⟩) =
      some [.connectionReady, .message, .connectionClosed] := by decide +kernel
  obtain ⟨s₁, hlisten, hrun⟩ := Option.bind_eq_some_iff.mp hrun
  obtain ⟨s₂, hrun, hhanded⟩ := Option.map_eq_some_iff.mp hrun
  have hpath : machine.Path (fun s i => servesRemotes 0 s i = true) s₁ s₂ :=
    Machine.Path.refl.of_run (fun _ _ h => h) hrun
  have hcycles := remote_life_cycle .init hlisten (by decide) (by decide) hpath ⟨1, 1, .udp⟩
  exact ⟨s₁, s₂, hpath, hhanded, hcycles.2⟩

end Msgbox
