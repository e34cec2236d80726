import Msgbox.Spec.Lifecycle

/-!
# How the events of a remote end

What a listening udp conn hands over for a remote that sends messages and requests are cycles from
`msg_connection_ready` to `msg_connection_closed`. This is lost as soon as a close is read: its
datagram stays in the socket, and it closes the remote whose address the conn happens to have.

## Key results

- `servesMessages`: the steps that serve the remotes and take no reply
- `udp_life_cycle`: the events of a remote, and what reading a close does
- `udp_life_cycle_broken`: a remote that is closed twice because another one closes
-/

namespace Msgbox

open State

/-! ## Messages and requests -/

/-- The event of a message or of a request. -/
def Event.IsData (e : Event) : Prop := e = .message ∨ e = .request

/-- Cycles from `msg_connection_ready` to `msg_connection_closed`, with messages and requests in
    between, the last of which may have only begun. -/
def IsLifeCycle (events : List Event) : Prop :=
  ∃ (full : List (List Event)) (last : List Event), events = full.flatten ++ last ∧
    (∀ x ∈ full, IsCycle .connectionReady .connectionClosed Event.IsData x) ∧
    IsBegun .connectionReady Event.IsData last

/-- The step serves the remotes of the conn, and the conn takes no reply. -/
def servesMessages (c : ConnId) (s : State) (i : Input) : Bool :=
  servesRemotes c s i && match i with
    | .read r => i.subject s ≠ some c ||
        (s.takenDatagram c r).all fun d => (decodeHeader d.bytes).kind ≠ .reply
    | _ => true

/-- No call for a reply was queued for the conn. -/
def NoReplies (c : ConnId) (s : State) : Prop :=
  ∀ p, Obs.queued p ∈ s.trace → p.conn = c → p.event ≠ .reply

variable {s s' : State} {i : Input} {c : ConnId} {r : ReadIn}

/-- What a step adds to the record decides it. -/
private theorem noReplies_of_record (h : NoReplies c s) (new : List Obs)
    (hrecord : s'.trace.filter (Obs.tells c) = new ++ s.trace.filter (Obs.tells c))
    (hnew : ∀ p, Obs.queued p ∈ new → p.event ≠ .reply) : NoReplies c s' := by
  intro p hp hconn
  have htells : (Obs.queued p).tells c = true := decide_eq_true hconn
  rw [← mem_record htells, hrecord] at hp
  rcases List.mem_append.mp hp with hp | hp
  · exact hnew p hp
  · exact h p ((mem_record htells).mp hp) hconn

/-- A step that takes no reply queues no call for one. -/
private theorem noReplies_step (hok : servesMessages c s i = true) (hs : Sound s)
    (hserves : Serves c s) (h : NoReplies c s) (hstep : step s i = some s') : NoReplies c s' := by
  obtain ⟨hremotes, hkinds⟩ := Bool.and_eq_true_iff.mp hok
  cases turn_step hremotes hs hserves hstep with
  | aloof haloof =>
    refine noReplies_of_record h [] haloof.record ?_
    exact fun _ hp => absurd hp List.not_mem_nil
  | @hears r a bytes p hinput hsubject htaken _ _ hbrings hhears =>
    -- The call is for the datagram that was taken, which is no reply.
    subst hinput
    obtain ⟨d, hd, heq⟩ := Option.map_eq_some_iff.mp htaken
    have hkind : (decodeHeader bytes).kind ≠ .reply := by
      obtain ⟨-, rfl⟩ := Prod.mk.inj heq
      simpa [hsubject, hd] using hkinds
    have hevent : p.event ≠ .reply := by
      intro hreply
      have hsome := hbrings.event
      rw [hreply] at hsome
      cases hk : (decodeHeader bytes).kind with
      | reply => exact hkind hk
      | _ => rw [hk] at hsome; exact absurd hsome (by decide)
    refine noReplies_of_record h (.queued p :: (greeting c s a ++ [.datagram c a bytes])) ?_ ?_
    · rw [hhears.record]
      simp
    · intro p' hp'
      rcases List.mem_cons.mp hp' with heq | hp'
      · exact Obs.queued.inj heq ▸ hevent
      · rcases List.mem_append.mp hp' with hp' | hp'
        · unfold greeting at hp'
          split at hp'
          · rw [Obs.queued.inj (List.mem_singleton.mp hp')]
            exact Event.noConfusion
          · exact absurd hp' List.not_mem_nil
        · exact Obs.noConfusion (List.mem_singleton.mp hp')
  | @parts w p _ _ hparts =>
    refine noReplies_of_record h [.queued p, .disconnected c (s.conn c).remoteAddress]
      hparts.record ?_
    intro p' hp'
    obtain rfl : p' = p := by simpa using hp'
    rw [hparts.call]
    exact Event.noConfusion
  | @calls p rest junk _ hconn _ _ heq =>
    rw [heq, makeCall_eq]
    refine noReplies_of_record h [.called (s.loaded p junk) p]
      (record_told (o := .called (s.loaded p junk) p) (decide_eq_true hconn) _) ?_
    exact fun _ hp => Obs.noConfusion (List.mem_singleton.mp hp)

/-- Nothing was queued for a conn that has heard nothing but that it listens. -/
private theorem Unheard.noReplies (h : Unheard c s) : NoReplies c s := by
  intro p hp hconn
  have htells : (Obs.queued p).tells c = true := decide_eq_true hconn
  rw [← mem_record htells, h.record] at hp
  rw [Obs.queued.inj (List.mem_singleton.mp hp)]
  exact Event.noConfusion

/-- Along a path without replies no call for one is queued. -/
private theorem path_noReplies {s₁ s₂ : State} (h : machine.Reach (fun s i => plain s i = true) s₁)
    (hunheard : Unheard c s₁)
    (hpath : machine.Path (fun s i => servesMessages c s i = true) s₁ s₂) : NoReplies c s₂ := by
  have hplain : ∀ s i, servesMessages c s i = true → plain s i = true := fun _ _ hok =>
    (servesRemotes_base (Bool.and_eq_true_iff.mp hok).1).1
  refine (hpath.keeps hplain (fun s => Serves c s ∧ NoReplies c s) h
    ⟨hunheard.serves, hunheard.noReplies⟩ ?_).2
  rintro s i s' hreach ⟨hserves, hnone⟩ hok hstep
  have hs := reach_sound hreach
  have hturn := turn_step (Bool.and_eq_true_iff.mp hok).1 hs hserves hstep
  exact ⟨hserves.turn hs hturn, noReplies_step hok hs hserves hnone hstep⟩

/-! ## A close -/

/-- The conn peeks at the header of a close. -/
def State.readsClose (s : State) (c : ConnId) (r : ReadIn) : Bool :=
  match s.peekHeader c r.peek with
  | .header raw => (decodeHeader raw).kind = .close
  | _ => false

/-- A close is not taken, and it closes the remote that the conn has at the moment. -/
private theorem readFromSocket_close (hlistening : s.isListeningUdp c = true)
    (hclose : s.readsClose c r = true) :
    (s.readFromSocket c r).1.trace.filter (Obs.tells c) =
        .queued (s.closingCall c .connectionClosed) :: s.trace.filter (Obs.tells c) ∧
      (s.readFromSocket c r).1.socketOf c = s.socketOf c := by
  have hudp : (s.conn c).protocolType = .udp := by
    simp only [isListeningUdp, Bool.and_eq_true, beq_iff_eq] at hlistening
    exact hlistening.2
  have hnot : (s.conn c).protocolType ≠ .tcp := by
    rw [hudp]
    exact Protocol.noConfusion
  unfold readsClose at hclose
  split at hclose
  · rename_i raw hraw
    have hevent : eventFor (decodeHeader raw) r.uninitEvent = none := by
      rw [← Option.not_isSome_iff_eq_none, eventFor_isSome]
      exact not_not.mpr (of_decide_eq_true hclose)
    -- Only the reply id of the conn has changed.
    have htake : s.takeHeader c raw = s := by rw [takeHeader, if_neg hnot]
    have hconn : (s.acceptHeader c raw).conn c =
        { s.conn c with replyId := (decodeHeader raw).replyId } := by
      simp [acceptHeader, htake]
    have haccept : (s.acceptHeader c raw).isListeningUdp c = true := by
      rw [isListeningUdp, hconn]
      exact hlistening
    unfold readFromSocket readHeader
    rw [if_neg hnot, hraw]
    simp only [hevent]
    constructor
    · have hcall : (s.acceptHeader c raw).closingCall c .connectionClosed =
          s.closingCall c .connectionClosed := by
        rw [closingCall, closingCall, haccept, hlistening, hconn]
      rw [localDisconnect_trace, hcall]
      refine (record_told (o := .queued _) (decide_eq_true rfl) _).trans (congrArg _ ?_)
      rw [acceptHeader, htake]
      exact record_cons rfl _
    · have hsockets : ((s.acceptHeader c raw).localDisconnect c .connectionClosed).sockets =
          s.sockets := by
        unfold localDisconnect
        rw [if_pos haccept, acceptHeader, htake]
        rfl
      rw [socketOf, socketOf, hsockets, localDisconnect_conn, hconn]
  · exact Bool.noConfusion hclose

/-- What a step that reads a close does for the remote whose address the conn has. -/
private theorem step_close (hs : Serves c s) (hreads : (Input.read r).Reads s c r)
    (hclose : s.readsClose c r = true) (hstep : step s (.read r) = some s') :
    s'.socketOf c = s.socketOf c ∧
      remoteEvents (queuedCalls s'.trace) c (s.conn c).remoteAddress =
        remoteEvents (queuedCalls s.trace) c (s.conn c).remoteAddress ++ [.connectionClosed] := by
  obtain ⟨index, hphase, hlisted⟩ := hreads.listed
  obtain ⟨index', c', hphase', hlisted', -, -, -, heq⟩ := step_read hstep
  obtain rfl := Phase.reading.inj (hphase.symm.trans hphase')
  obtain rfl := Option.some.inj (hlisted.symm.trans hlisted')
  obtain ⟨hrecord, hsocket⟩ := readFromSocket_close hs.listening hclose
  have hrecord' : s'.trace.filter (Obs.tells c) =
      .queued (s.closingCall c .connectionClosed) :: s.trace.filter (Obs.tells c) := by
    rw [heq, ← hrecord]
    split <;> rfl
  constructor
  · rw [heq, ← hsocket]
    split <;> rfl
  · rw [← remoteEvents_record, hrecord', queuedCalls_queued, remoteEvents_append,
      remoteEvents_record, remoteEvents_single (p := s.closingCall c .connectionClosed) (c := c)
        rfl (a := (s.conn c).remoteAddress) rfl, if_pos rfl]
    rfl

/-! ## Runs -/

/-- For every udp conn that `msg_listen` made, and every run from there that serves its remotes and
    in which it takes no reply: the events with the address of a remote are cycles of
    `msg_connection_ready`, messages and requests, and `msg_connection_closed`, one for each call of
    `msg_disconnect` for the remote. A close that it reads then is not taken, and is one
    `msg_connection_closed` more for the remote whose address the conn has, at every read. -/
theorem udp_life_cycle {s₀ s₁ s₂ : State} {address : CString} {callback : Nat} {o : OpenIn}
    (h : machine.Reach (fun s i => plain s i = true) s₀)
    (hlisten : step s₀ (.app (.listen address callback o)) = some s₁)
    (hopens : Input.openFails address true o = false)
    (hudp : (parseAddressStr address ⟨0, 0, .other⟩).1.protocolType = .udp)
    (hpath : machine.Path (fun s i => servesMessages s₀.nextConn s i = true) s₁ s₂) :
    (∀ a, IsLifeCycle (handedEvents s₂.trace s₀.nextConn a) ∧
      (handedEvents s₂.trace s₀.nextConn a ++
          remoteEvents s₂.pending s₀.nextConn a).count .connectionClosed =
        partings s₂.trace s₀.nextConn a) ∧
    ∀ r s₃, (Input.read r).Reads s₂ s₀.nextConn r → s₂.readsClose s₀.nextConn r = true →
      step s₂ (.read r) = some s₃ →
        s₃.socketOf s₀.nextConn = s₂.socketOf s₀.nextConn ∧
        remoteEvents (queuedCalls s₃.trace) s₀.nextConn (s₂.conn s₀.nextConn).remoteAddress =
          remoteEvents (queuedCalls s₂.trace) s₀.nextConn (s₂.conn s₀.nextConn).remoteAddress ++
            [.connectionClosed] := by
  have hserving : machine.Path (fun s i => servesRemotes s₀.nextConn s i = true) s₁ s₂ :=
    hpath.mono fun _ _ hok => (Bool.and_eq_true_iff.mp hok).1
  obtain ⟨hreach, hserves, hcycling⟩ := listen_cycling h hlisten hopens hudp hserving
  have hnone : NoReplies s₀.nextConn s₂ := by
    have hreach₁ : machine.Reach (fun s i => plain s i = true) s₁ :=
      h.step (i := .app (.listen address callback o)) rfl hlisten
    obtain ⟨-, -, rfl⟩ := step_app hlisten
    exact path_noReplies hreach₁ (unheard_listen (reach_recorded h) hopens hudp) hpath
  refine ⟨fun a => ?_, fun r s₃ hreads hclose hstep => step_close hserves hreads hclose hstep⟩
  have hqueued := hserves.handedEvents_append hreach a
  constructor
  · have hprefix : handedEvents s₂.trace s₀.nextConn a <+:
        remoteEvents (queuedCalls s₂.trace) s₀.nextConn a := ⟨_, hqueued⟩
    -- Among the events of data there is none of a reply.
    have hdata : ∀ e ∈ remoteEvents (queuedCalls s₂.trace) s₀.nextConn a,
        e.isMessage = true → e.IsData := by
      intro e he hmessage
      obtain ⟨p, hp, rfl⟩ := List.mem_map.mp he
      obtain ⟨hp, hfor⟩ := List.mem_filter.mp hp
      have hconn : p.conn = s₀.nextConn := by simpa using (Bool.and_eq_true_iff.mp hfor).1
      have hreply := hnone p (mem_queuedCalls.mp hp) hconn
      cases hevent : p.event with
      | message => exact .inl rfl
      | request => exact .inr rfl
      | reply => exact absurd hevent hreply
      | _ => rw [hevent] at hmessage; exact Bool.noConfusion hmessage
    have hrestricted := (hcycling a).cycles.restrict hdata
    obtain ⟨live, hcycles⟩ := hrestricted.of_prefix hprefix
    exact hcycles.split
  · rw [hqueued]
    exact (hcycling a).closings

/-- Two remotes send something, and the callback for the second one disconnects it. -/
theorem udp_life_cycle_two :
    ∃ s₁ s₂, machine.Path (fun s i => servesMessages 0 s i = true) s₁ s₂ ∧
      handedEvents s₂.trace 0 ⟨1, 1, .udp⟩ = [.connectionReady, .message] ∧
      IsLifeCycle (handedEvents s₂.trace 0 ⟨1, 1, .udp⟩) ∧
      handedEvents s₂.trace 0 ⟨2, 2, .udp⟩ = [.connectionReady, .request, .connectionClosed] ∧
      IsLifeCycle (handedEvents s₂.trace 0 ⟨2, 2, .udp⟩) := by
  let address : CString := ['u', 'd', 'p', ':', '/', '/', '*', ':', '8', '0']
  let request : Datagram := ⟨2, 2, setHeader .request 7 1 ++ [66]⟩
  have hrun : ((step State.init (.app (.listen address 0 { socket := .ok 3 }))).bind fun s₁ =>
      (machine.runFrom (servesMessages 0) s₁
        [.env (.datagram 3 messageDatagram), .env (.datagram 3 request),
          .runloop (.ready [{ pollin := true }]), .visit none, .read { peek := .upTo 8 },
          .read { peek := .upTo 8 }, .read {}, .endPoll, .timeouts 0, .deliver {}, .ret,
          .deliver {}, .ret, .deliver {}, .ret, .deliver {}, .ret, .deliver {},
          .app (.disconnect 0 {}), .ret, .deliver {}, .runloop .nothing, .timeouts 0,
          .deliver {}, .ret]).map fun s₂ : State =>
            (handedEvents s₂.trace 0 ⟨1, 1, .udp⟩, handedEvents s₂.trace 0 ⟨2, 2, .udp⟩)) =
      some ([.connectionReady, .message], [.connectionReady, .request, .connectionClosed]) := by
    decide +kernel
  obtain ⟨s₁, hlisten, hrun⟩ := Option.bind_eq_some_iff.mp hrun
  obtain ⟨s₂, hrun, hview⟩ := Option.map_eq_some_iff.mp hrun
  obtain ⟨hfirst, hsecond⟩ := Prod.mk.inj hview
  have hpath : machine.Path (fun s i => servesMessages 0 s i = true) s₁ s₂ :=
    Machine.Path.refl.of_run (fun _ _ h => h) hrun
  have hcycles := (udp_life_cycle .init hlisten (by decide) (by decide) hpath).1
  exact ⟨s₁, s₂, hpath, hfirst, (hcycles _).1, hsecond, (hcycles _).1⟩

/-- One remote sends a message, another one sends a close, and two cycles of `msg_runloop` read. -/
def closedByAnother : List Input :=
  listenRun ++
    [.env (.datagram 3 messageDatagram), .runloop (.ready [{ pollin := true }]), .visit none,
      .read { peek := .upTo 8 }, .read {}, .endPoll, .timeouts 0, .deliver {}, .ret, .deliver {},
      .ret, .deliver {}, .env (.datagram 3 ⟨2, 2, setHeader .close 0 0⟩),
      .runloop (.ready [{ pollin := true }]), .visit none, .read { peek := .upTo 8 }, .endPoll,
      .timeouts 0, .deliver {}, .ret, .deliver {}, .runloop (.ready [{ pollin := true }]),
      .visit none, .read { peek := .upTo 8 }, .endPoll, .timeouts 0, .deliver {}, .ret,
      .deliver {}]

/-- The remote that only sent a message is closed twice, and `msg_disconnect` is never called. -/
theorem udp_life_cycle_broken :
    ∃ s, machine.run plain closedByAnother = some s ∧
      handedEvents s.trace 0 ⟨1, 1, .udp⟩ =
        [.connectionReady, .message, .connectionClosed, .connectionClosed] ∧
      ¬ IsLifeCycle (handedEvents s.trace 0 ⟨1, 1, .udp⟩) ∧
      partings s.trace 0 ⟨1, 1, .udp⟩ = 0 := by
  have hrun : (machine.run plain closedByAnother).map (fun s : State =>
      (handedEvents s.trace 0 ⟨1, 1, .udp⟩, partings s.trace 0 ⟨1, 1, .udp⟩)) =
      some ([.connectionReady, .message, .connectionClosed, .connectionClosed], 0) := by
    decide +kernel
  obtain ⟨s, hs, hview⟩ := Option.map_eq_some_iff.mp hrun
  obtain ⟨hhanded, hpartings⟩ := Prod.mk.inj hview
  refine ⟨s, hs, hhanded, ?_, hpartings⟩
  rintro ⟨full, last, heq, hfull, hlast⟩
  have hle := count_closing_le (by decide) (by simp [Event.IsData]) hfull hlast
  rw [← heq, hhanded] at hle
  exact absurd hle (by decide)

end Msgbox
