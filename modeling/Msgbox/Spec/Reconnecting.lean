import Msgbox.Spec.Ownership
import Msgbox.Spec.Connecting

/-!
# A later connect to an address that nobody has

Where no entry is left behind, the next conn that is connected to the address, and the next
message that comes from it, queue a fresh `msg_connection_ready`. While a connect is in progress
its conn has the address already, although it has not made the entry: until then it does not count
as an owner.

## Key results

- `path_owned`: while a connect is in progress, every entry has another owner
- `statuses_owned`: every entry has an owner, and an address without one gets a fresh
  `msg_connection_ready`, at once or when the connect is completed
- `statuses_not_owned`: a refused udp conn leaves its entry behind
-/

namespace Msgbox

namespace State

variable {s s' : State} {c : ConnId} {a : Address}

/-- A conn that is not there yet owns no entry. -/
private theorem owned_before (hs : Sound s) (h : Owned none s) : Owned (some s.nextConn) s where
  owner a sid ha := by
    obtain ⟨c, -, hopen, hown⟩ := h.owner a sid ha
    refine ⟨c, fun heq => ?_, hopen, hown⟩
    have hlt := hs.allocated.conns c (isOpen_iff.mp hopen).1
    exact absurd (Option.some.inj heq) (Nat.ne_of_lt hlt)
  bound := h.bound

/-- When a connect is in progress, the conn is there, and the entries are as before. -/
private theorem owned_connecting (hs : Sound s) (h : Owned none s) (k : Conn) (contents : Socket) :
    Owned (some s.nextConn) ((s.enterConn k contents).finishOpen s.nextConn false true) := by
  have hentered : Owned (some s.nextConn) (s.enterConn k contents) :=
    owned_opened hs (owned_before hs h)
  exact owned_same hentered rfl rfl rfl (List.Subset.refl _) rfl

/-- A step while the connect is in progress, if it takes no owner away but the conn. -/
private theorem owned_waiting (hs : Sound s) (hwaits : Waits c a s) (h : Owned (some c) s)
    {i : Input} (halone : leavesAlone c s i) (hok : keepsOwnersBut (some c) s i = true)
    (hstep : step s i = some s') : Owned (some c) s' := by
  by_cases hvisit : ∃ index soError, i.Visits s c index soError
  · -- A visit of the conn itself, which does not complete the connect.
    obtain ⟨index, soError, hvisits⟩ := hvisit
    have hinput := hvisits.input
    subst hinput
    obtain ⟨index', c', hphase, hlisted, -, rfl⟩ := step_visit hstep
    obtain rfl := Phase.polling.inj (hphase.symm.trans hvisits.phase)
    obtain rfl := Option.some.inj (hlisted.symm.trans hvisits.listed)
    rw [hwaits.visit hphase hlisted halone.1]
    exact owned_same h rfl rfl rfl (List.Subset.refl _) rfl
  · have hnot := hwaits.not_concerned halone fun index soError hv => hvisit ⟨index, soError, hv⟩
    refine step_owned hok (fun c' hconcerns heq => ?_) hs h hstep
    obtain rfl := Option.some.inj heq
    exact hnot hconcerns

/-- While a connect is in progress, every entry has an owner other than its conn. -/
theorem path_owned {ok : State → Input → Prop} (hreach : machine.Reach ok s)
    (htcp : a.protocolType = .tcp) (hwaits : Waits c a s) (h : Owned (some c) s)
    (hpath : machine.Path (fun s i => leavesAlone c s i ∧ keepsOwnersBut (some c) s i = true)
      s s') :
    Waits c a s' ∧ Owned (some c) s' := by
  refine hpath.keeps (P := fun _ _ => True) (fun _ _ _ => trivial)
    (fun s => Waits c a s ∧ Owned (some c) s) (hreach.mono fun _ _ _ => trivial) ⟨hwaits, h⟩ ?_
  rintro s₁ i s₂ hreach₁ ⟨hwaits₁, h₁⟩ ⟨halone, hok⟩ hstep
  have hs₁ := reach_sound hreach₁
  exact ⟨hwaits₁.step hs₁ htcp halone hstep, owned_waiting hs₁ hwaits₁ h₁ halone hok hstep⟩

/-- The visit that finds a connect completed, of a conn whose address has no entry. -/
private theorem visit_queued (haddress : (s.conn c).remoteAddress = a)
    (hcompletes : completes c s (.visit none) = true) (hstep : step s (.visit none) = some s')
    (hnone : s.connStatus.lookup a = none) :
    queuedCalls s'.trace = queuedCalls s.trace ++ [readyCall c a] := by
  obtain ⟨index, c', hphase, hlisted, -, rfl⟩ := step_visit hstep
  simp only [completes, hphase, hlisted, Bool.and_eq_true, beq_iff_eq, Option.some.injEq,
    Bool.or_eq_true] at hcompletes
  obtain ⟨rfl, hfound⟩ := hcompletes
  have hother : ¬ ((s.reventsAt index).pollerr = true ∧
      ((none : Option Errno) = some .connRefused ∨ (none : Option Errno) = some .timedOut)) := by
    simp
  have hpollout : (s.reventsAt index).pollout = true := by simpa using hfound
  rw [visitConn_other hother, if_pos hpollout]
  exact remoteAddressSeen_queued haddress hnone

end State

open State

/-- In every run whose steps take no owner away, every entry has an owner. So no entry is left
    for an address that no open conn has or has heard from: the next `msg_connect` to it, whether
    it is established at once or later, and the next message from it, queue a
    `msg_connection_ready`. -/
theorem statuses_owned {s : State} (h : machine.Reach (fun s i => keepsOwners s i = true) s) :
    (∀ a sid, s.connStatus.lookup a = some sid → ∃ c, s.isOpen c = true ∧ s.owns c a = true) ∧
    (∀ address callback connContext o sock a, parseAddressStr address ⟨0, 0, .other⟩ = (a, none) →
      o.socket = .ok sock → o.nonBlocking = none ∧ o.opener = none →
      (∀ c, s.isOpen c = true → s.owns c a = false) →
        queuedCalls (s.msgConnect address callback connContext o).trace =
          queuedCalls s.trace ++ [State.readyCall s.nextConn a]) ∧
    (∀ address callback connContext o sock a s₁ s₂ s₃,
      step s (.app (.connect address callback connContext o)) = some s₁ →
      parseAddressStr address ⟨0, 0, .other⟩ = (a, none) → a.protocolType = .tcp →
      o.socket = .ok sock → connecting address false o = true →
      machine.Path (fun s' i => leavesAlone s.nextConn s' i ∧
        keepsOwnersBut (some s.nextConn) s' i = true) s₁ s₂ →
      completes s.nextConn s₂ (.visit none) = true → step s₂ (.visit none) = some s₃ →
      (∀ c, c ≠ s.nextConn → s₂.isOpen c = true → s₂.owns c a = false) →
        queuedCalls s₃.trace = queuedCalls s₂.trace ++ [State.readyCall s.nextConn a]) ∧
    (∀ c r raw event d, (s.conn c).protocolType = .udp → s.peekHeader c r.peek = .header raw →
      State.eventFor (decodeHeader raw) r.uninitEvent = some event →
      s.recvfrom c r.recvfrom = .ok d →
      (∀ c', s.isOpen c' = true → s.owns c' ⟨d.ip, d.port, .udp⟩ = false) →
        ∃ p, queuedCalls (s.readFromSocket c r).1.trace =
          queuedCalls s.trace ++ [State.readyCall c ⟨d.ip, d.port, .udp⟩, p]) := by
  obtain ⟨hs, howned⟩ := reach_owned h
  have hnone : ∀ a, (∀ c, s.isOpen c = true → s.owns c a = false) →
      s.connStatus.lookup a = none := by
    intro a hfree
    rw [Option.eq_none_iff_forall_not_mem]
    intro sid hlookup
    obtain ⟨c, -, hopen, hown⟩ := howned.owner a sid hlookup
    rw [hfree c hopen] at hown
    exact Bool.noConfusion hown
  refine ⟨?_, ?_, ?_, ?_⟩
  · intro a sid ha
    obtain ⟨c, -, hc⟩ := howned.owner a sid ha
    exact ⟨c, hc⟩
  · intro address callback connContext o sock a hparsed hsock hok hfree
    have hqueued := State.msgConnect_queued (s := s) address callback connContext
      (by rw [hparsed]) hsock hok (by rw [hparsed]; exact hnone a hfree)
    rwa [hparsed] at hqueued
  · intro address callback connContext o sock a s₁ s₂ s₃ hconnect hparsed htcp hsock hopen hpath
      hcompletes hvisit hfree
    obtain ⟨hphase, -, heq⟩ := step_app hconnect
    obtain ⟨k, contents, haddress, rfl⟩ : ∃ k contents, k.remoteAddress = a ∧
        s₁ = (s.enterConn k contents).finishOpen s.nextConn false true := by
      rcases openSocket_cases s address connContext callback false o with
        ⟨hfails, -⟩ | ⟨-, sock', contents, hopened⟩
      · rw [not_openFails hparsed hsock hopen] at hfails
        exact Bool.noConfusion hfails
      · rw [hopen] at hopened
        refine ⟨_, contents, ?_, heq.trans hopened⟩
        show (parseAddressStr address ⟨0, 0, .other⟩).1 = a
        rw [hparsed]
    have hwaits : Waits s.nextConn a ((s.enterConn k contents).finishOpen s.nextConn false true) :=
      waits_start hs haddress hphase
    have hreach : machine.Reach (fun _ _ => True) _ :=
      (h.mono fun _ _ _ => trivial).step (i := .app (.connect address callback connContext o))
        trivial hconnect
    obtain ⟨hwaits₂, howned₂⟩ :=
      path_owned hreach htcp hwaits (owned_connecting hs howned k contents) hpath
    apply visit_queued hwaits₂.address hcompletes hvisit
    rw [Option.eq_none_iff_forall_not_mem]
    intro sid hlookup
    obtain ⟨c, hne, hisOpen, hown⟩ := howned₂.owner a sid hlookup
    rw [hfree c (fun heq => hne (congrArg some heq)) hisOpen] at hown
    exact Bool.noConfusion hown
  · intro c r raw event d hudp hpeek hevent hrecv hfree
    exact State.readFromSocket_queued hudp hpeek hevent hrecv (hnone _ hfree)

/-- In the run of one `msg_connect` the conn owns the one entry. A connect that is in progress
    and is found completed in the next cycle gets its `msg_connection_ready`. -/
theorem statuses_owned_connected :
    (∃ s, machine.Reach (fun s i => keepsOwners s i = true) s ∧
      s.connStatus.lookup ⟨67305985, 80, .tcp⟩ = some 0 ∧
        ∃ c, s.isOpen c = true ∧ s.owns c ⟨67305985, 80, .tcp⟩ = true) ∧
    ∃ s₂ s₃, step s₂ (.visit none) = some s₃ ∧ queuedCalls s₃.trace =
      queuedCalls s₂.trace ++ [State.readyCall 0 ⟨67305985, 80, .tcp⟩] := by
  constructor
  · obtain ⟨s, hreach, hview⟩ := machine.exists_reach_of_run keepsOwners (fun _ _ h => h) connectRun
      (fun s => s.connStatus.lookup ⟨67305985, 80, .tcp⟩) (some 0) (by decide +kernel)
    exact ⟨s, hreach, hview, (statuses_owned hreach).1 _ _ hview⟩
  · let address : CString := "tcp://1.2.3.4:80".toList
    let o : OpenIn := { socket := .ok 3, opener := some .inProgress }
    let poll : Input := .runloop (.ready [{ pollout := true }])
    have hrun : ((step State.init (.app (.connect address 0 null o))).bind fun s₁ =>
        (step s₁ poll).bind fun s₂ => (step s₂ (.visit none)).map fun _ =>
          (keepsOwnersBut (some 0) s₁ poll, completes 0 s₂ (.visit none), s₂.conns)) =
        some (true, true, [0]) := by decide +kernel
    obtain ⟨s₁, hconnect, hrun⟩ := Option.bind_eq_some_iff.mp hrun
    obtain ⟨s₂, hpoll, hrun⟩ := Option.bind_eq_some_iff.mp hrun
    obtain ⟨s₃, hvisit, hview⟩ := Option.map_eq_some_iff.mp hrun
    simp only [Prod.mk.injEq] at hview
    obtain ⟨hkeeps, hcompletes, hconns⟩ := hview
    have hpath : machine.Path (fun s i => leavesAlone 0 s i ∧ keepsOwnersBut (some 0) s i = true)
        s₁ s₂ := .tail .refl ⟨⟨rfl, fun _ => Input.noConfusion⟩, hkeeps⟩ hpoll
    refine ⟨s₂, s₃, hvisit, (statuses_owned .init).2.2.1 address 0 null o 3 _ s₁ s₂ s₃ hconnect
      (by decide +kernel) rfl rfl (by decide +kernel) hpath hcompletes hvisit ?_⟩
    intro c hne hopen
    rw [isOpen_iff, hconns, List.mem_singleton] at hopen
    exact absurd hopen.1 hne

/-- A udp conn is refused, as an `ICMP` answer to what it sent makes `poll` report: the conn
    goes and leaves its entry behind, so the next `msg_connect` to the address queues no
    `msg_connection_ready`. -/
theorem statuses_not_owned :
    ∃ s, machine.Reach (fun _ _ => True) s ∧ s.conns = [] ∧ s.removals = [] ∧
      s.connStatus.lookup ⟨67305985, 80, .udp⟩ = some 0 ∧
      queuedCalls (s.msgConnect ['u', 'd', 'p', ':', '/', '/', '1', '.', '2', '.', '3', '.', '4',
        ':', '8', '0'] 0 null { socket := .ok 4 }).trace = queuedCalls s.trace := by
  obtain ⟨s, hreach, hview⟩ := machine.exists_reach_of_run (P := fun _ _ => True)
    (fun _ _ => true) (fun _ _ _ => trivial)
    [.app (.connect ['u', 'd', 'p', ':', '/', '/', '1', '.', '2', '.', '3', '.', '4', ':', '8', '0']
        0 null { socket := .ok 3 }),
      .runloop (.ready [{ pollerr := true }]), .visit (some .connRefused), .endPoll, .timeouts 0,
      .deliver {}, .ret, .deliver {}, .ret, .deliver {}]
    (fun s => (s.conns, s.removals, s.connStatus.lookup ⟨67305985, 80, .udp⟩,
      decide (queuedCalls (s.msgConnect ['u', 'd', 'p', ':', '/', '/', '1', '.', '2', '.', '3', '.',
        '4', ':', '8', '0'] 0 null { socket := .ok 4 }).trace = queuedCalls s.trace)))
    ([], [], some 0, true) (by decide +kernel)
  simp only [Prod.mk.injEq, decide_eq_true_eq] at hview
  exact ⟨s, hreach, hview⟩

end Msgbox
