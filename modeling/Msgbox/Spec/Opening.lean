import Msgbox.Spec.Tables

/-!
# Opening a socket

`open_socket` has six exits by an error, some before and some after the new conn is entered in the
tables, and three other ends: it waits for a tcp connect, or reports that the conn listens, or that
it is connected.

## Key results

- `openSocket_failed`, `openSocket_opened`: the state after `open_socket`
- `open_socket_all_or_nothing`: the tables are as before, or there is one matching entry more
-/

namespace Msgbox

namespace State

variable {s s' : State}

/-! ## The two outcomes -/

/-- The connect of a tcp conn is in progress. -/
def connecting (address : CString) (forListening : Bool) (o : OpenIn) : Bool :=
  !forListening && o.nonBlocking.isNone && (parseAddressStr address ⟨0, 0, .other⟩).1.protocolType =
    .tcp &&
    match o.opener with
    | some e => e = .inProgress || e = .wouldBlock
    | none => false

/-- The new conn has its descriptor and is entered in both tables. -/
def enterConn (s : State) (k : Conn) (contents : Socket) : State :=
  (((s.openDescriptor k.socket contents).allocConn k).addToConns s.nextConn).addToPollFds k.socket

/-- The end of `open_socket` where no error occurs, for the conn that was entered last. -/
def finishOpen (s : State) (c : ConnId) (forListening connecting : Bool) : State :=
  if connecting then s.setConnToPollMode (s.conns.length - 1) .write
  else if forListening then s.sendCallback c .listening none .nothing .other
  else (s.remoteAddressSeen c).1

/-- The new conn is taken out again and queued to be freed. -/
private theorem enterConn_fail (s : State) (k : Conn) (contents : Socket) (name : String)
    (e : Errno) :
    (((s.enterConn k contents).sendCallbackOsError s.nextConn name e (.conn s.nextConn)
      ).removeLastPollingConn) =
      ((s.openDescriptor k.socket contents).allocConn k).sendCallback s.nextConn .error
        (some (msgNewData (snprintf 1024 (name ++ ": " ++ errStr e)))) (.conn s.nextConn) .other :=
  removeLast_fail (s.openDescriptor k.socket contents) k name e

variable (s : State) (address : CString) (connContext : Ptr) (callback : Nat) (forListening : Bool)
  (o : OpenIn)

/-- What `open_socket` does: the new conn is not listed and is queued to be freed, or it is entered
    in the tables. -/
theorem openSocket_cases :
    (Input.openFails address forListening o = true ∧ ∃ s₁ k text,
      (s₁ = s ∨ ∃ sock contents, s₁ = s.openDescriptor sock contents) ∧
      s.openSocket address connContext callback forListening o =
        (s₁.allocConn k).sendCallback s.nextConn .error (some (msgNewData text))
          (.conn s.nextConn) .other) ∨
    (Input.openFails address forListening o = false ∧ ∃ sock contents,
      s.openSocket address connContext callback forListening o =
        (s.enterConn (s.openedConn address connContext callback forListening sock)
          contents).finishOpen s.nextConn forListening (connecting address forListening o)) := by
  unfold openSocket
  dsimp only
  rcases setupSockaddr_new s address connContext callback forListening o.socket with
    ⟨msg, hfails, heq⟩ | ⟨sock, contents, hparsed, hsocket, heq⟩
  · rw [heq]
    refine .inl ⟨by rw [Input.openFails, hfails, Bool.true_or], s, _, msg, .inl rfl, rfl⟩
  · rw [heq]
    have hsetup : Input.setupFails address o.socket = false := by
      simp [Input.setupFails, hparsed, hsocket]
    generalize hk : s.openedConn address connContext callback forListening sock = k
    have hsock : sock = k.socket := by rw [← hk]; rfl
    have hproto : ((s.enterConn k contents).conn s.nextConn).protocolType =
        (parseAddressStr address ⟨0, 0, .other⟩).1.protocolType := by
      rw [← hk]
      simp [enterConn, openedConn, Conn.protocolType]
    -- An error that `open_socket` finds with the conn listed.
    have hfail : Input.openLeaks address forListening o = true → ∀ name e,
        Input.openFails address forListening o = true ∧ ∃ s₁ k' text,
          (s₁ = s ∨ ∃ sock contents, s₁ = s.openDescriptor sock contents) ∧
          ((s.enterConn k contents).sendCallbackOsError s.nextConn name e (.conn s.nextConn)
            ).removeLastPollingConn =
            (s₁.allocConn k').sendCallback s.nextConn .error (some (msgNewData text))
              (.conn s.nextConn) .other := by
      intro hleaks name e
      exact ⟨by rw [Input.openFails, hleaks, Bool.or_true], s.openDescriptor k.socket contents, k,
        _, .inr ⟨_, _, rfl⟩, enterConn_fail s k contents name e⟩
    have hentered : (((s.openDescriptor sock contents).allocConn k).addToConns
        s.nextConn).addToPollFds sock = s.enterConn k contents := by
      rw [hsock]
      rfl
    rw [hentered]
    dsimp only
    rw [hproto]
    split
    · rename_i e hblocking
      exact .inl (hfail (by simp [Input.openLeaks, hparsed, hsocket, hblocking]) _ _)
    · rename_i hblocking
      split
      · rename_i e hopener
        split
        · rename_i hconnect
          refine .inr ⟨?_, sock, contents, ?_⟩
          · simp [Input.openFails, hsetup, Input.openLeaks, hopener, hblocking, hconnect.1,
              hconnect.2.1]
            tauto
          · have hconnecting : connecting address forListening o = true := by
              simp [connecting, hopener, hblocking, hconnect.1, hconnect.2.1, hconnect.2.2]
            rw [hk, finishOpen, if_pos hconnecting]
        · rename_i hnot
          refine .inl (hfail ?_ _ _)
          simp only [Input.openLeaks, hparsed, hsocket, hopener, Option.isNone_none, Bool.and_self,
            Bool.true_and, Bool.or_eq_true, Bool.and_eq_true, decide_eq_true_eq]
          refine .inr ?_
          by_contra hno
          push Not at hno
          exact hnot ⟨hno.1.1, hno.1.2, by tauto⟩
      · rename_i hopener
        have hconnecting : connecting address forListening o = false := by
          simp [connecting, hopener]
        split
        · rename_i hlistening
          split
          · rename_i e hlisten
            refine .inl (hfail ?_ _ _)
            split at hlisten
            · rename_i htcp
              simp [Input.openLeaks, hparsed, hsocket, hopener, hlistening, htcp, hlisten]
            · exact absurd hlisten.symm (Option.some_ne_none e)
          · rename_i hlisten
            refine .inr ⟨?_, sock, contents, ?_⟩
            · simp only [Input.openFails, hsetup, Input.openLeaks, hopener, hblocking]
              split at hlisten
              · simp [hlisten]
              · rename_i htcp
                simp [htcp]
            · rw [hk, finishOpen, hconnecting, if_neg Bool.false_ne_true, if_pos hlistening]
        · rename_i hlistening
          refine .inr ⟨?_, sock, contents, ?_⟩
          · simp [Input.openFails, hsetup, Input.openLeaks, hopener, hblocking, hlistening]
          · rw [hk, finishOpen, hconnecting, if_neg Bool.false_ne_true, if_neg hlistening]

/-- `set_conn_to_poll_mode` of the entry that was added last. -/
private theorem modify_last {pollFds : List PollFd} {n : Nat} (h : pollFds.length = n)
    (pollFd : PollFd)
    (mode : PollMode) : (pollFds ++ [pollFd]).modify n (fun p => { p with events := mode }) =
      pollFds ++ [{ pollFd with events := mode }] := by
  induction pollFds generalizing n with
  | nil =>
    subst h
    rfl
  | cons first pollFds ih =>
    subst h
    rw [List.cons_append, List.length_cons, List.modify_succ_cons, ih rfl]
    rfl

/-- The tables after an end of `open_socket` without an error. -/
theorem finishOpen_tables (h : s.pollFds.length = s.conns.length) (k : Conn) (contents : Socket)
    (waits : Bool) :
    let s' := (s.enterConn k contents).finishOpen s.nextConn forListening waits
    s'.conns = s.conns ++ [s.nextConn] ∧ s'.conn s.nextConn = k ∧
      s'.pollFds = s.pollFds ++
        [{ fd := k.socket, events := if waits then .write else .read }] := by
  have hconn : (s.enterConn k contents).conn s.nextConn = k := by
    simp [enterConn]
  dsimp only
  unfold finishOpen
  split
  · refine ⟨rfl, hconn, ?_⟩
    rename_i hwaits
    have hlen : (s.enterConn k contents).conns.length - 1 = s.conns.length := by
      simp [enterConn]
    rw [hlen]
    show (s.pollFds ++ [({ fd := k.socket, events := .read } : PollFd)]).modify s.conns.length _ = _
    rw [modify_last h]
  · split
    · exact ⟨rfl, hconn, rfl⟩
    · unfold remoteAddressSeen
      split <;> exact ⟨rfl, hconn, rfl⟩

end State

open State

/-- If `open_socket` fails, the tables and `conn_status` are as before, and one error is queued that
    frees the new conn. Otherwise the new conn and its entry are appended, which waits for a tcp
    connect that is in progress, and else for something to read. -/
theorem open_socket_all_or_nothing (s : State) (address : CString) (connContext : Ptr)
    (callback : Nat) (forListening : Bool) (o : OpenIn) (h : Indexed s) :
    let s' := s.openSocket address connContext callback forListening o
    let c := s.nextConn
    if Input.openFails address forListening o = true then
      s'.conns = s.conns ∧ s'.pollFds = s.pollFds ∧ s'.connStatus = s.connStatus ∧
        ∃ text, s'.immediateCallbacks =
          s.immediateCallbacks ++ [⟨c, .error, some (msgNewData text), .conn c, .other⟩]
    else
      s'.conns = s.conns ++ [c] ∧ (s'.conn c).index = s.conns.length ∧
        s'.pollFds = s.pollFds ++ [{
          fd := (s'.conn c).socket
          events := if connecting address forListening o then .write else .read }] := by
  dsimp only
  rcases openSocket_cases s address connContext callback forListening o with
    ⟨hfails, s₁, k, text, hs₁, heq⟩ | ⟨hopens, sock, contents, heq⟩
  · rw [if_pos hfails, heq]
    rcases hs₁ with rfl | ⟨sock, contents, rfl⟩
    · exact ⟨rfl, rfl, rfl, text, rfl⟩
    · exact ⟨rfl, rfl, rfl, text, rfl⟩
  · rw [if_neg (by simp [hopens]), heq]
    obtain ⟨hconns, hconn, hpollFds⟩ := finishOpen_tables s forListening h.length
      (s.openedConn address connContext callback forListening sock) contents
      (connecting address forListening o)
    rw [hconns, hconn, hpollFds]
    exact ⟨rfl, rfl, rfl⟩

/-- Next to an open connection, a connect that is in progress gets one entry more in both tables,
    and one whose `socket` fails gets none. -/
theorem open_socket_all_or_nothing_second :
    ∃ s s₁ s₂, machine.Reach (fun _ _ => True) s ∧ s.conns = [0] ∧
      s₁ = s.openSocket "tcp://1.2.3.5:80".toList null 0 false
        { socket := .ok 4, opener := some .inProgress } ∧
      s₁.conns = [0, 1] ∧ s₁.pollFds = s.pollFds ++ [{ fd := 4, events := .write }] ∧
      s₂ = s.openSocket "tcp://1.2.3.5:80".toList null 0 false { socket := .error .badSock } ∧
      s₂.conns = [0] ∧ s₂.pollFds = s.pollFds := by
  let address : CString := "tcp://1.2.3.5:80".toList
  let o : OpenIn := { socket := .ok 4, opener := some .inProgress }
  obtain ⟨s, hreach, hview⟩ := machine.exists_reach_of_run (P := fun _ _ => True)
    (fun _ _ => true) (fun _ _ _ => trivial) connectRun
    (fun s => (s.conns, s.nextConn, ((s.openSocket address null 0 false o).conn 1).socket))
    ([0], 1, 4) (by decide +kernel)
  simp only [Prod.mk.injEq] at hview
  obtain ⟨hconns, hnext, hsocket⟩ := hview
  have hindexed : Indexed s := (reach_tabled hreach).toIndexed
  have hopened := open_socket_all_or_nothing s address null 0 false o hindexed
  have hfailed := open_socket_all_or_nothing s address null 0 false { socket := .error .badSock }
    hindexed
  dsimp only at hopened hfailed
  rw [if_neg (by decide +kernel), hnext, hconns, hsocket] at hopened
  rw [if_pos (by decide +kernel), hconns] at hfailed
  exact ⟨s, _, _, hreach, hconns, rfl, hopened.1, hopened.2.2, rfl, hfailed.1, hfailed.2.1⟩

end Msgbox
