import Msgbox.Spec.Effects
import Msgbox.Spec.Functions
import Msgbox.Spec.Removal

/-!
# Every step is made of effects

One lemma for each function of the program, in the order of the calls, up to the step
function of the machine.

## Key results

- `readFromSocket_effects`, `appCall_effects`, `timeoutPass_effects`: the parts of a step
- `step_effects`: every step is a sequence of effects
- `step_invariant`, `reach_invariant`: the invariant rule, one effect at a time
-/

namespace Msgbox

namespace State

variable {s₀ s : State} {i : Input} {c : ConnId}

/-- Early effects are effects. -/
theorem effects_early {s' : State} (h : Relation.ReflTransGen (Early s₀ i) s s') :
    Relation.ReflTransGen (Effect s₀ i) s s' :=
  Relation.ReflTransGen.mono (fun _ _ => Effect.early) _ _ h

/-- Replacing what an open descriptor holds leaves the same descriptors open. -/
theorem isSome_update {sockets : Sock → Option Socket} {sock : Sock} {k : Option Socket}
    (h : k.isSome = (sockets sock).isSome) (sock' : Sock) :
    (Function.update sockets sock k sock').isSome = (sockets sock').isSome := by
  by_cases hsock : sock' = sock
  · subst hsock
    rw [Function.update_self]
    exact h
  · rw [Function.update_of_ne hsock]

/-- Taking bytes from a descriptor leaves it open. -/
private theorem early_consume (c : ConnId) (n : Nat) : Early s₀ i s (s.consume c n) := by
  apply Early.kernel
  apply isSome_update
  rw [Option.isSome_map]
  rfl

/-- An error of a system call is reported for a conn that the step may report for. -/
private theorem early_osError (herrs : i.Errs s₀ c) (name : String) (e : Errno) :
    Early s₀ i s (s.sendCallbackOsError c name e .nothing) :=
  .error _ herrs

/-! ## Reading -/

/-- What `recv` returns depends on the descriptor and what it holds. -/
theorem recvOn_congr {s' : State} (hsockets : s'.sockets = s.sockets)
    (hsock : (s'.conn c).socket = (s.conn c).socket) (len : Nat) (r : Recv) :
    s'.recvOn c len r = s.recvOn c len r := by
  simp only [recvOn, socketOf, hsockets, hsock]

/-- So does what is read as a header. -/
theorem peekHeader_congr {s' : State} (hsockets : s'.sockets = s.sockets)
    (hsock : (s'.conn c).socket = (s.conn c).socket) (r : Recv) :
    s'.peekHeader c r = s.peekHeader c r := by
  simp only [peekHeader, recvOn_congr hsockets hsock]

/-- `remote_address_seen` writes to no conn. -/
@[simp] theorem remoteAddressSeen_conn (s : State) (c : ConnId) :
    (s.remoteAddressSeen c).1.conn = s.conn := by
  unfold remoteAddressSeen
  split <;> rfl

/-- `remote_address_seen` makes no system call. -/
@[simp] theorem remoteAddressSeen_sockets (s : State) (c : ConnId) :
    (s.remoteAddressSeen c).1.sockets = s.sockets := by
  unfold remoteAddressSeen
  split <;> rfl

/-- Observations are added, none is taken back. -/
private theorem remoteAddressSeen_trace (s : State) (c : ConnId) :
    s.trace ⊆ (s.remoteAddressSeen c).1.trace := by
  unfold remoteAddressSeen
  split
  · exact fun _ ho => ho
  · exact fun _ ho => List.mem_cons_of_mem _ ho

/-- Afterwards the conn's address has the status that is returned. -/
theorem remoteAddressSeen_status (s : State) (c : ConnId) :
    (s.remoteAddressSeen c).1.statusOfConn c = some (s.remoteAddressSeen c).2 := by
  unfold remoteAddressSeen
  split
  · assumption
  · exact AList.lookup_insert s.connStatus

/-- A message in progress stays as it is, and a new status has none. -/
theorem remoteAddressSeen_waiting (s : State) (c : ConnId) :
    ((s.remoteAddressSeen c).1.status (s.remoteAddressSeen c).2).waitingBuffer.numBytes =
      s.waitingBytes c := by
  unfold remoteAddressSeen waitingBytes
  cases s.statusOfConn c with
  | some sid => rfl
  | none => simp

/-- An entry that is missing in the status of the address was missing before. -/
private theorem remoteAddressSeen_entry (s : State) (c : ConnId) (sid : StatusId)
    (hsid : s.statusOfConn c = some sid) (id : UInt16)
    (h : ((s.remoteAddressSeen c).1.status (s.remoteAddressSeen c).2).replyContexts.lookup id =
      none) : (s.status sid).replyContexts.lookup id = none := by
  simp only [remoteAddressSeen, hsid] at h
  exact h

/-- `remote_address_seen` is one early effect if the address is new, and none otherwise. -/
private theorem early_remoteAddressSeen (hlisted : c ∈ s.conns) (hsees : i.Sees s₀ s c) :
    Relation.ReflTransGen (Early s₀ i) s (s.remoteAddressSeen c).1 := by
  unfold remoteAddressSeen
  split
  · exact .refl
  · rename_i hnone
    exact .single (.ready hlisted hsees hnone)

/-- The header is taken (on a tcp conn) and written to the fields of the conn. -/
private theorem early_acceptHeader {r : ReadIn} (hreads : i.Reads s₀ c r)
    (htcp : (s.conn c).protocolType = .tcp →
      (s₀.conn c).protocolType = .tcp ∧ (s₀.conn c).forListening = false) (raw : List UInt8) :
    Relation.ReflTransGen (Early s₀ i) s (s.acceptHeader c raw) := by
  have htake : Relation.ReflTransGen (Early s₀ i) s (s.takeHeader c raw) := by
    unfold takeHeader
    split
    · rename_i hproto
      have hnotes : i.Notes s₀ (s.consume c headerLen) (.received c raw) :=
        .received raw hreads (htcp hproto).1 (htcp hproto).2
      exact (Relation.ReflTransGen.single (early_consume c headerLen)).tail (.note _ rfl hnotes)
    · exact .refl
  exact htake.tail (.header (decodeHeader raw) hreads)

@[simp] theorem acceptHeader_connStatus (s : State) (c : ConnId) (raw : List UInt8) :
    (s.acceptHeader c raw).connStatus = s.connStatus := by
  unfold acceptHeader takeHeader
  split <;> rfl

@[simp] theorem acceptHeader_socket (s : State) (c : ConnId) (raw : List UInt8) (c' : ConnId) :
    ((s.acceptHeader c raw).conn c').socket = (s.conn c').socket := by
  unfold acceptHeader takeHeader
  split <;> by_cases hc : c' = c <;> simp [hc]

@[simp] theorem acceptHeader_remoteAddress (s : State) (c : ConnId) (raw : List UInt8)
    (c' : ConnId) : ((s.acceptHeader c raw).conn c').remoteAddress = (s.conn c').remoteAddress := by
  unfold acceptHeader takeHeader
  split <;> by_cases hc : c' = c <;> simp [hc]

@[simp] theorem acceptHeader_statusOfConn (s : State) (c : ConnId) (raw : List UInt8)
    (c' : ConnId) : (s.acceptHeader c raw).statusOfConn c' = s.statusOfConn c' := by
  unfold statusOfConn
  rw [acceptHeader_connStatus, acceptHeader_remoteAddress]

/-- On a tcp conn the bytes of the header are taken. -/
theorem acceptHeader_sockets (htcp : (s.conn c).protocolType = .tcp) (raw : List UInt8) :
    (s.acceptHeader c raw).sockets = (s.consume c headerLen).sockets := by
  unfold acceptHeader takeHeader
  rw [if_pos htcp]
  rfl

@[simp] theorem acceptHeader_nextConn (s : State) (c : ConnId) (raw : List UInt8) :
    (s.acceptHeader c raw).nextConn = s.nextConn := by
  unfold acceptHeader takeHeader
  split <;> rfl

@[simp] theorem acceptHeader_status (s : State) (c : ConnId) (raw : List UInt8) :
    (s.acceptHeader c raw).status = s.status := by
  unfold acceptHeader takeHeader
  split <;> rfl

@[simp] theorem acceptHeader_conns (s : State) (c : ConnId) (raw : List UInt8) :
    (s.acceptHeader c raw).conns = s.conns := by
  unfold acceptHeader takeHeader
  split <;> rfl

@[simp] theorem acceptHeader_phase (s : State) (c : ConnId) (raw : List UInt8) :
    (s.acceptHeader c raw).phase = s.phase := by
  unfold acceptHeader takeHeader
  split <;> rfl

/-- How a call of `read_from_socket` that returns false changes the state. -/
inductive ReadEnds (s₀ : State) (i : Input) (c : ConnId) : State → Prop
  | stays {s' : State} (h : Relation.ReflTransGen (Effect s₀ i) s₀ s') : ReadEnds s₀ i c s'
  | drops {s₁ : State} {event : Event} (hearly : Relation.ReflTransGen (Early s₀ i) s₀ s₁)
      (hdrops : i.Drops s₀ c) (hevent : event.isClosing = true) :
      ReadEnds s₀ i c (s₁.localDisconnect c event)
  | reports {s₁ s' : State} (hsteps : Relation.ReflTransGen (Effect s₀ i) s₀ s₁)
      (h : ∀ ph : Phase, s₁.phase.saved = [] → i.Advances s₀ ph →
        Final s₀ i s₁ { s' with phase := ph }) :
      ReadEnds s₀ i c s'

/-- A body is over if `recv` finds the end of the stream while bytes are missing. -/
private theorem recvBody_over {sid : StatusId} {r : Recv} (h : s.recvBody c sid r = .over) :
    s.recvOver c (s.status sid).waitingBuffer.numBytes r = true := by
  unfold recvBody at h
  unfold recvOver
  generalize s.recvOn c (s.status sid).waitingBuffer.numBytes r = received at h ⊢
  split at h
  · split at h
    · rename_i hlen
      simpa using hlen
    · exact nomatch h
  · rfl
  · exact nomatch h
  · exact nomatch h

/-- A message is continued by early effects, unless the end of the connection is seen. -/
private theorem continueMessage_effects {r : ReadIn} {sid : StatusId} {header : Header}
    (hearly : Relation.ReflTransGen (Early s₀ i) s₀ s) (hreads : i.Reads s₀ c r)
    (htcp : (s₀.conn c).protocolType = .tcp) (hconn : (s₀.conn c).forListening = false)
    (hsid : s.statusOfConn c = some sid)
    (hover : s.recvOver c (s.status sid).waitingBuffer.numBytes r.body = true → i.Drops s₀ c)
    {s' : State} {m : Option Message} (h : s.continueMessage c sid header r.body = (s', m)) :
    m.elim (ReadEnds s₀ i c s') fun m =>
      Relation.ReflTransGen (Early s₀ i) s₀ s' ∧ m.status = sid ∧ m.header = header ∧
        s'.connStatus = s.connStatus ∧ s'.conn = s.conn := by
  unfold continueMessage continueRecv at h
  cases hrecv : s.recvBody c sid r.body with
  -- `recv` returned 0: the caller drops the conn.
  | «over» =>
    simp only [hrecv, Prod.mk.injEq] at h
    obtain ⟨rfl, rfl⟩ := h
    exact .drops hearly (hover (recvBody_over hrecv)) rfl
  | blocked =>
    simp only [hrecv, Prod.mk.injEq] at h
    obtain ⟨rfl, rfl⟩ := h
    exact .stays (effects_early hearly)
  -- The error is reported and the buffer of the message is given up.
  | failed e =>
    simp only [hrecv, Prod.mk.injEq] at h
    obtain ⟨rfl, rfl⟩ := h
    have herr := hearly.tail (early_osError (.tcp hreads htcp) "recv" e)
    have hclear := herr.tail (.buffer none {} hreads htcp hsid hconn)
    exact .stays (effects_early
      (hclear.tail (.note (.recvFailed c) rfl (.recvFailed hreads htcp hconn))))
  -- The bytes go into the buffer, which is now full or not.
  | bytes bs =>
    simp only [hrecv] at h
    have htake := (hearly.tail (early_consume c bs.length)).tail
      (.note (.received c bs) rfl (.received bs hreads htcp hconn))
    have hfill : Relation.ReflTransGen (Early s₀ i) s₀
        (((s.consume c bs.length).log (.received c bs)).fillWaiting sid bs) :=
      htake.tail (.buffer _ _ hreads htcp hsid hconn)
    split at h
    · rename_i heq
      exact absurd heq (by split <;> simp)
    · rename_i heq
      exact absurd heq (by split <;> simp)
    -- Not full: the message waits for the next read.
    · rename_i s₁ heq
      simp only [Prod.mk.injEq] at heq h
      obtain ⟨rfl, -⟩ := heq
      obtain ⟨rfl, rfl⟩ := h
      exact .stays (effects_early hfill)
    · rename_i s₁ heq
      simp only [Prod.mk.injEq] at heq h
      obtain ⟨rfl, -⟩ := heq
      obtain ⟨rfl, rfl⟩ := h
      have hclear := hfill.tail (.buffer none {} hreads htcp hsid hconn)
      exact ⟨hclear, rfl, rfl, rfl, rfl⟩

/-- What is known when a tcp message has been read completely. -/
theorem recvTcp_effects {r : ReadIn} (hreads : i.Reads s₀ c r)
    (htcp : (s₀.conn c).protocolType = .tcp) (hconn : (s₀.conn c).forListening = false)
    {s' : State} {m : Option Message} (h : s₀.recvTcp c r = (s', m)) :
    m.elim (ReadEnds s₀ i c s') fun m =>
      Relation.ReflTransGen (Early s₀ i) s₀ s' ∧ s'.statusOfConn c = some m.status ∧
        (s'.conn c).protocolType = .tcp ∧ (m.header.kind = .close → i.Drops s₀ c) := by
  have hlisted : c ∈ s₀.conns := by
    obtain ⟨index, -, hindex⟩ := hreads.listed
    exact List.mem_of_getElem? hindex
  have hseen := early_remoteAddressSeen (s := s₀) hlisted (.tcp hreads htcp hconn)
  have hstatus := remoteAddressSeen_status s₀ c
  have hwaiting := remoteAddressSeen_waiting s₀ c
  have hconns := remoteAddressSeen_conn s₀ c
  have hsockets := remoteAddressSeen_sockets s₀ c
  -- `tcpDrops` says beforehand whether this read ends with `local_disconnect`.
  have hdrops : s₀.tcpDrops c r = true → i.Drops s₀ c := by
    intro hd
    refine .read hreads ?_
    rw [readDrops, if_pos htcp, hconn, hd]
    rfl
  -- The header of a message in progress is that of the status, unless the status is new.
  have hsaved : (s₀.remoteAddressSeen c).1.savedHeader (s₀.remoteAddressSeen c).2 = default ∨
      s₀.statusOfConn c = some (s₀.remoteAddressSeen c).2 ∧
        (s₀.remoteAddressSeen c).1 = s₀ := by
    unfold remoteAddressSeen
    split
    · rename_i sid hsid
      exact .inr ⟨hsid, rfl⟩
    · refine .inl ?_
      simp [savedHeader]
  unfold recvTcp at h
  unfold tcpDrops at hdrops
  -- From here on only what is known of `remote_address_seen` counts.
  generalize s₀.remoteAddressSeen c = seen at h hseen hstatus hwaiting hconns hsockets hsaved
  obtain ⟨s₁, sid⟩ := seen
  dsimp only at h hseen hstatus hwaiting hconns hsockets hsaved
  have hsock : (s₁.conn c).socket = (s₀.conn c).socket := by rw [hconns]
  rw [hwaiting] at h
  split at h
  -- No message is in progress: the header comes first.
  · rename_i hzero
    rw [if_pos hzero] at hdrops
    unfold readHeader at h
    rw [peekHeader_congr hsockets hsock] at h
    cases hpeek : s₀.peekHeader c r.peek with
    | blocked =>
      simp only [hpeek, Prod.mk.injEq] at h
      obtain ⟨rfl, rfl⟩ := h
      exact .stays (effects_early hseen)
    | «over» =>
      simp only [hpeek, Prod.mk.injEq] at h
      obtain ⟨rfl, rfl⟩ := h
      exact .drops hseen (hdrops (by simp [hpeek])) rfl
    | failed e =>
      simp only [hpeek, Prod.mk.injEq] at h
      obtain ⟨rfl, rfl⟩ := h
      exact .stays (effects_early (hseen.tail (early_osError (.tcp hreads htcp) "recv" e)))
    | header raw =>
      simp only [hpeek] at h hdrops
      have haccept := hseen.trans (early_acceptHeader hreads (fun _ => ⟨htcp, hconn⟩) raw)
      split at h
      -- A close header drops the conn.
      · rename_i hclose
        simp only [Prod.mk.injEq] at h
        obtain ⟨rfl, rfl⟩ := h
        exact .drops haccept (hdrops (by simp [hclose])) rfl
      · rename_i hclose
        have hbuffer : Relation.ReflTransGen (Early s₀ i) s₀
            ((s₁.acceptHeader c raw).newConnStatusBuffer sid (decodeHeader raw)) := by
          refine haccept.tail (.buffer _ _ hreads htcp ?_ hconn)
          rw [acceptHeader_statusOfConn, hstatus]
        have hafter : ((s₁.acceptHeader c raw).newConnStatusBuffer sid
            (decodeHeader raw)).statusOfConn c = some sid := by
          show (s₁.acceptHeader c raw).statusOfConn c = some sid
          rw [acceptHeader_statusOfConn, hstatus]
        -- After any other header the body is read at once.
        have hcont := continueMessage_effects hbuffer hreads htcp hconn hafter ?_ h
        · cases m with
          | none => exact hcont
          | some m =>
            obtain ⟨heffects, hmsid, hheader, hmap, hfields⟩ := hcont
            refine ⟨heffects, ?_, ?_, fun hk => absurd (hheader ▸ hk) hclose⟩
            · unfold statusOfConn
              rw [hmap, hfields, hmsid]
              exact hafter
            · rw [hfields]
              show ((s₁.acceptHeader c raw).conn c).remoteAddress.protocolType = .tcp
              rw [acceptHeader_remoteAddress, hconns]
              exact htcp
        · intro hover
          refine hdrops (Bool.or_eq_true_iff.mpr (.inr ?_))
          simp only [newConnStatusBuffer_status, Function.update_self] at hover
          unfold recvOver at hover ⊢
          rw [recvOn_congr (s := s₀.consume c headerLen)] at hover
          · exact hover
          · show (s₁.acceptHeader c raw).sockets = (s₀.consume c headerLen).sockets
            rw [acceptHeader_sockets (by rw [hconns]; exact htcp)]
            simp only [consume, socketOf, hsockets, hconns]
          · show ((s₁.acceptHeader c raw).conn c).socket = (s₀.conn c).socket
            rw [acceptHeader_socket, hconns]
  -- A message is in progress, under the header that its status has kept.
  · rename_i hpos
    rw [if_neg hpos] at hdrops
    have hcont := continueMessage_effects hseen hreads htcp hconn hstatus ?_ h
    · cases m with
      | none => exact hcont
      | some m =>
        obtain ⟨heffects, hmsid, hheader, hmap, hfields⟩ := hcont
        refine ⟨heffects, ?_, ?_, ?_⟩
        · unfold statusOfConn
          rw [hmap, hfields, hmsid]
          exact hstatus
        · rw [hfields, hconns]
          exact htcp
        · intro hk
          rcases hsaved with hdefault | ⟨hsid, rfl⟩
          · rw [hheader, hdefault] at hk
            exact absurd hk (by decide)
          · refine hdrops (Bool.or_eq_true_iff.mpr (.inr ?_))
            simp only [savedClose, hsid, ← hheader, hk, beq_self_eq_true]
    · intro hover
      refine hdrops (Bool.or_eq_true_iff.mpr (.inl ?_))
      unfold recvOver at hover ⊢
      rw [hwaiting, recvOn_congr hsockets hsock] at hover
      exact hover

/-- A failed `accept` that leaves its descriptor open is a leak of the step. -/
private theorem leaks_accept {r : ReadIn} (hreads : i.Reads s₀ c r)
    (htcp : (s₀.conn c).protocolType = .tcp)
    (hconn : (s₀.conn c).forListening = true) (hleaks : Input.acceptLeaks r = true) :
    i.leaks s₀ = true := by
  obtain ⟨index, hphase, hlisted⟩ := hreads.listed
  rw [hreads.input, Input.leaks, hphase]
  simp [hlisted, htcp, hconn, hleaks]

/-- A new conn is opened, or `accept` fails, with or without a leak. -/
private theorem acceptConn_effects {r : ReadIn} (hreads : i.Reads s₀ c r)
    (htcp : (s₀.conn c).protocolType = .tcp) (hconn : (s₀.conn c).forListening = true) :
    Relation.ReflTransGen (Effect s₀ i) s₀ (s₀.acceptConn c r) := by
  unfold acceptConn
  split
  · exact .refl
  · exact .single (.early (early_osError (.tcp hreads htcp) _ _))
  · rename_i newSock ip port haccept
    have hnew : s₀.sockets newSock = none := by
      have haccepted := hreads.accept
      rw [haccept] at haccepted
      exact Option.isNone_iff_eq_none.mp haccepted
    -- Both error exits after `accept` leave its descriptor open.
    have hleak : Input.acceptLeaks r = true → Relation.ReflTransGen (Effect s₀ i) s₀
        (s₀.openDescriptor newSock (.stream [] false)) :=
      fun hleaks => .single (.early (.leak _ hnew (leaks_accept hreads htcp hconn hleaks)))
    dsimp only
    split
    · rename_i hsigpipe
      exact (hleak (by simp [Input.acceptLeaks, haccept, hsigpipe])).tail
        (.early (early_osError (.tcp hreads htcp) _ _))
    · split
      · rename_i hblocking
        exact (hleak (by simp [Input.acceptLeaks, haccept, hblocking])).tail
          (.early (early_osError (.tcp hreads htcp) _ _))
      · -- The new conn is allocated, filled in and listed at once.
        have hfill : ((s₀.openDescriptor newSock (.stream [] false)).newConnection
            (s₀.conn c).connContext (s₀.conn c).callback false).modifyConn s₀.nextConn
              (fun k =>
                { k with
                  socket := newSock
                  remoteAddress := ⟨ip, port, (s₀.conn c).protocolType⟩
                  index := s₀.conns.length }) =
            (s₀.openDescriptor newSock (.stream [] false)).allocConn
              { connContext := (s₀.conn c).connContext
                callback := (s₀.conn c).callback
                remoteAddress := ⟨ip, port, .tcp⟩
                socket := newSock
                index := s₀.conns.length } := by
          simp [modifyConn, newConnection, allocConn, openDescriptor, htcp]
        have hopened := Relation.ReflTransGen.single (Effect.opened
          { connContext := (s₀.conn c).connContext
            callback := (s₀.conn c).callback
            remoteAddress := ⟨ip, port, .tcp⟩
            socket := newSock
            index := s₀.conns.length }
          (.stream [] false) (.accept hreads htcp hconn haccept) hnew rfl rfl rfl rfl rfl)
        have hseen := hopened.trans (effects_early (early_remoteAddressSeen (c := s₀.nextConn)
          (by simp) (.opened rfl (by simp) (by simp))))
        simp only [openDescriptor_conn, openDescriptor_nextConn, openDescriptor_conns,
          newConnection_conns, hfill]
        exact hseen

/-- What is known of a complete message when the callback is about to be queued. -/
structure Ready (s₀ s : State) (c : ConnId) (r : ReadIn) (m : Message) : Prop where
  status : s.statusOfConn c = some m.status
  metadata : (s.conn c).protocolType = .udp →
    m.data.metadata.replyContext = some null ∧
      m.data.metadata.remoteAddress = some (s.conn c).remoteAddress
  origin : (s.conn c).protocolType = .udp → s₀.FromDatagram c r s m
  unmatched : (s.conn c).protocolType = .udp → m.header.kind = .reply →
    (s.status m.status).replyContexts.lookup m.header.replyId = none → s₀.unmatchedReply c r = true
  tcp : (s.conn c).protocolType = .tcp →
    (s₀.conn c).protocolType = .tcp ∧ (s₀.conn c).forListening = false

/-- A complete message is the last effect of a step. -/
private theorem handleMessage_final {r : ReadIn} (hreads : i.Reads s₀ c r) {event : Event}
    {m : Message} (hevent : eventFor m.header r.uninitEvent = some event)
    (hready : Ready s₀ s c r m)
    {s' : State} {more : Bool} (h : s.handleMessage c event m = (s', more)) :
    (more = true → Final s₀ i s s') ∧
      (more = false → ∀ ph : Phase, s.phase.saved = [] → i.Advances s₀ ph →
        Final s₀ i s { s' with phase := ph }) := by
  unfold handleMessage at h
  dsimp only at h
  split at h
  -- A reply is looked up in the status.
  · rename_i hkind
    split at h
    -- No get waits for it, which is an error.
    · rename_i hlookup
      simp only [Prod.mk.injEq] at h
      obtain ⟨rfl, rfl⟩ := h
      refine ⟨fun hm => Bool.noConfusion hm, fun _ ph hold hnext => ?_⟩
      exact .unmatched hreads hkind hready.status hlookup hold hnext hready.origin
        (fun hudp => hready.unmatched hudp hkind hlookup) hready.tcp
    -- It resolves a get: the call, the entry and the timeout in one effect.
    · rename_i context hlookup
      simp only [Prod.mk.injEq] at h
      obtain ⟨rfl, rfl⟩ := h
      refine ⟨fun _ => ?_, fun hm => nomatch hm⟩
      let data := if (s.conn c).protocolType = .udp then
          { m.data with metadata := { m.data.metadata with replyContext := some context } }
        else m.data
      have hdata : (s.conn c).protocolType = .udp → data.metadata.replyContext = some context ∧
          data.metadata.remoteAddress = some (s.conn c).remoteAddress := by
        intro hudp
        simp [data, hudp, (hready.metadata hudp).2]
      have hbytes : data.bytes = m.data.bytes := by
        dsimp only [data]
        split <;> rfl
      convert Final.matched hreads hevent hkind hready.status hlookup hdata hbytes hready.origin
        hready.tcp using 1
      simp [resolve, sendCallback, modifyConn, modifyStatus, removeTimeout, Conn.protocolType]
      rfl
  -- Other messages are handed over as they are.
  · rename_i hkind
    simp only [Prod.mk.injEq] at h
    obtain ⟨rfl, rfl⟩ := h
    exact ⟨fun _ => .handled hreads hevent hkind hready.status hready.metadata hready.origin
      hready.tcp,
      fun hm => nomatch hm⟩

/-- For a message without a reply the fields of the conn may be cleared. -/
theorem clearOneWay_effects {r : ReadIn} (hreads : i.Reads s₀ c r) (header : Header) :
    Relation.ReflTransGen (Effect s₀ i) s (s.clearOneWay c header) := by
  unfold clearOneWay
  split
  · exact .single (.oneWay hreads)
  · exact .refl

@[simp] theorem clearOneWay_remoteAddress (s : State) (c : ConnId) (header : Header)
    (c' : ConnId) :
    ((s.clearOneWay c header).conn c').remoteAddress = (s.conn c').remoteAddress := by
  unfold clearOneWay
  split
  · by_cases hc : c' = c <;> simp [hc]
  · rfl

@[simp] theorem clearOneWay_statusOfConn (s : State) (c : ConnId) (header : Header)
    (c' : ConnId) : (s.clearOneWay c header).statusOfConn c' = s.statusOfConn c' := by
  have hmap : (s.clearOneWay c header).connStatus = s.connStatus := by
    unfold clearOneWay
    split <;> rfl
  unfold statusOfConn
  rw [hmap, clearOneWay_remoteAddress]

@[simp] theorem clearOneWay_conns (s : State) (c : ConnId) (header : Header) :
    (s.clearOneWay c header).conns = s.conns := by
  unfold clearOneWay
  split <;> rfl

/-- Accepting the header of a datagram writes no field of the conn but the reply id. -/
theorem acceptHeader_udp (hudp : (s.conn c).protocolType = .udp) (raw : List UInt8) :
    ∃ id, ((s.acceptHeader c raw).clearOneWay c (decodeHeader raw)).conn c =
        { s.conn c with replyId := id } ∧
      ((s.acceptHeader c raw).clearOneWay c (decodeHeader raw)).sockets = s.sockets := by
  have htake : s.takeHeader c raw = s := by
    rw [takeHeader, if_neg (by rw [hudp]; exact Protocol.noConfusion)]
  unfold acceptHeader clearOneWay
  rw [htake]
  split
  · exact ⟨0, by simp, rfl⟩
  · exact ⟨(decodeHeader raw).replyId, by simp, rfl⟩

/-- A datagram is taken, and its sender is seen; or `recvfrom` fails. -/
private theorem recvUdp_effects {r : ReadIn} (hreads : i.Reads s₀ c r)
    (hudp : (s₀.conn c).protocolType = .udp) (hproto : (s.conn c).protocolType = .udp)
    (hbefore : s.recvfrom c r.recvfrom = s₀.recvfrom c r.recvfrom)
    (hsame : (s.conn c).forListening = (s₀.conn c).forListening ∧
      (s.conn c).remoteAddress = (s₀.conn c).remoteAddress)
    (htables : s.connStatus = s₀.connStatus ∧ s.status = s₀.status) (hlisted : c ∈ s.conns)
    {raw : List UInt8} (hpeek : s₀.peekHeader c r.peek = .header raw)
    (hkind : (decodeHeader raw).kind ≠ .close) {s' : State} {m : Option Message}
    (h : s.recvUdp c (decodeHeader raw) r.recvfrom = (s', m)) :
    Relation.ReflTransGen (Effect s₀ i) s s' ∧
      ∀ m', m = some m' → m'.header = decodeHeader raw ∧ Ready s₀ s' c r m' := by
  unfold recvUdp at h
  split at h
  · rename_i e hrecv
    simp only [Prod.mk.injEq] at h
    obtain ⟨rfl, rfl⟩ := h
    -- A failing `recvfrom` takes nothing and is only reported.
    have hfails : s₀.udpReadFails c r = true := by
      simp [udpReadFails, hpeek, hkind, hbefore ▸ hrecv]
    exact ⟨.single (.early (early_osError (.udp hreads hudp hfails) _ _)), fun _ hm => nomatch hm⟩
  · rename_i d hrecv
    have hrecv₀ : s₀.recvfrom c r.recvfrom = .ok d := hbefore ▸ hrecv
    simp only [hproto, Prod.mk.injEq] at h
    obtain ⟨rfl, rfl⟩ := h
    -- The datagram is taken and its sender becomes the address of the conn.
    have hdatagram := Relation.ReflTransGen.single
      (Effect.datagram (s := s) (i := i) d hreads hudp hproto (hbefore ▸ hrecv) hsame)
    refine ⟨hdatagram.trans (effects_early (early_remoteAddressSeen hlisted
      (.udp hreads hudp (by simp [Conn.protocolType]) ⟨d.bytes, by simp⟩))), ?_⟩
    intro m' hm
    obtain rfl := Option.some.inj hm
    refine ⟨rfl, remoteAddressSeen_status _ _, fun _ => ⟨rfl, ?_⟩, fun _ => ?_,
      fun _ hreply => ?_, ?_⟩
    · simp
    · refine ⟨raw, d, hpeek, hrecv₀, rfl, rfl, ?_, remoteAddressSeen_trace _ _ List.mem_cons_self⟩
      rw [remoteAddressSeen_conn, modifyConn_conn, Function.update_self]
    -- A reply that the new address waits for would be one that the old tables know.
    · intro hnone
      have hseen : ∀ sid, s₀.connStatus.lookup ⟨d.ip, d.port, .udp⟩ = some sid →
          (s₀.status sid).replyContexts.lookup (decodeHeader raw).replyId = none := by
        intro sid hsid
        have hentry := fun hstatus => remoteAddressSeen_entry _ _ sid hstatus _ hnone
        rw [← htables.2]
        apply hentry
        rw [statusOfConn, modifyConn_conn, Function.update_self]
        show s.connStatus.lookup _ = some sid
        rw [htables.1, hsid]
      simp only [unmatchedReply, hpeek, hrecv₀, Bool.and_eq_true, beq_iff_eq]
      refine ⟨hreply, ?_⟩
      cases hsid : s₀.connStatus.lookup ⟨d.ip, d.port, .udp⟩ with
      | none => rfl
      | some sid => exact Option.isNone_iff_eq_none.mpr (hseen sid hsid)
    · rw [remoteAddressSeen_conn, modifyConn_conn, Function.update_self]
      exact fun hproto => Protocol.noConfusion hproto

/-- `read_from_socket`, for the conn that the step reads. -/
theorem readFromSocket_effects {r : ReadIn} (hreads : i.Reads s₀ c r) {s' : State} {more : Bool}
    (h : s₀.readFromSocket c r = (s', more)) :
    (more = false → ReadEnds s₀ i c s') ∧ (more = true → Effects s₀ i s₀ s') := by
  unfold readFromSocket at h
  split at h
  · rename_i htcp
    split at h
    -- A listening tcp conn accepts.
    · rename_i hlistening
      simp only [Prod.mk.injEq] at h
      obtain ⟨rfl, rfl⟩ := h
      exact ⟨fun _ => .stays (acceptConn_effects hreads htcp hlistening), fun hm => nomatch hm⟩
    · rename_i hconn
      have hrecv := @recvTcp_effects s₀ i c r hreads htcp (by simpa using hconn)
      cases hcase : s₀.recvTcp c r with
      | mk s₁ m =>
        have hm := hrecv hcase
        simp only [hcase] at h
        cases m with
        -- No complete message, so `recv_tcp` has said all.
        | none =>
          simp only [Prod.mk.injEq] at h
          obtain ⟨rfl, rfl⟩ := h
          exact ⟨fun _ => hm, fun hm => nomatch hm⟩
        | some m =>
          obtain ⟨hearly, hstatus, hproto, hclose⟩ := hm
          dsimp only at h
          split at h
          -- Only a close header has no event.
          · rename_i hnone
            simp only [Prod.mk.injEq] at h
            obtain ⟨rfl, rfl⟩ := h
            have hk : m.header.kind = .close := by
              unfold eventFor at hnone
              split at hnone <;> simp_all
            exact ⟨fun _ => .drops hearly (hclose hk) rfl, fun hm => nomatch hm⟩
          -- A complete message: its call is the last effect.
          · rename_i event hevent
            have hnot : ((s₁.clearOneWay c m.header).conn c).protocolType ≠ .udp := by
              intro hudp
              rw [Conn.protocolType, clearOneWay_remoteAddress] at hudp
              rw [Conn.protocolType, hudp] at hproto
              exact Protocol.noConfusion hproto
            have hready : Ready s₀ (s₁.clearOneWay c m.header) c r m :=
              ⟨by simpa using hstatus, fun hudp => absurd hudp hnot, fun hudp => absurd hudp hnot,
                fun hudp => absurd hudp hnot, fun _ => ⟨htcp, by simpa using hconn⟩⟩
            have hclear := (effects_early hearly).trans (clearOneWay_effects hreads m.header)
            have hfinal := handleMessage_final hreads hevent hready h
            exact ⟨fun hm => .reports hclear (hfinal.2 hm),
              fun hm => ⟨_, hclear, .inr (hfinal.1 hm)⟩⟩
  -- What is no tcp conn is a udp conn.
  · rename_i hnot
    have hudp : (s₀.conn c).protocolType = .udp := by
      have hother := hreads.protocol
      cases hproto : (s₀.conn c).protocolType <;> simp_all
    have hlisted : c ∈ s₀.conns := by
      obtain ⟨index, -, hindex⟩ := hreads.listed
      exact List.mem_of_getElem? hindex
    have hdrops : s₀.udpDrops c r = true → i.Drops s₀ c := by
      intro hd
      refine .read hreads ?_
      rw [readDrops, if_neg hnot]
      exact hd
    unfold udpDrops at hdrops
    unfold readHeader at h
    cases hpeek : s₀.peekHeader c r.peek with
    | blocked =>
      simp only [hpeek, Prod.mk.injEq] at h
      obtain ⟨rfl, rfl⟩ := h
      exact ⟨fun _ => .stays .refl, fun hm => nomatch hm⟩
    | «over» =>
      simp only [hpeek, Prod.mk.injEq] at h
      obtain ⟨rfl, rfl⟩ := h
      exact ⟨fun _ => .drops .refl (hdrops (by simp [hpeek])) rfl, fun hm => nomatch hm⟩
    | failed e =>
      simp only [hpeek, Prod.mk.injEq] at h
      obtain ⟨rfl, rfl⟩ := h
      have hfails : s₀.udpReadFails c r = true := by simp [udpReadFails, hpeek]
      exact ⟨fun _ => .stays (.single (.early (early_osError (.udp hreads hudp hfails) _ _))),
        fun hm => nomatch hm⟩
    | header raw =>
      simp only [hpeek] at h hdrops
      have haccept := early_acceptHeader (s := s₀) hreads (fun htcp => absurd htcp hnot) raw
      split at h
      · rename_i hnone
        simp only [Prod.mk.injEq] at h
        obtain ⟨rfl, rfl⟩ := h
        have hk : (decodeHeader raw).kind = .close := by
          unfold eventFor at hnone
          split at hnone <;> simp_all
        exact ⟨fun _ => .drops haccept (hdrops (by simp [hk])) rfl, fun hm => nomatch hm⟩
      · rename_i event hevent
        have hclear := (effects_early haccept).trans
          (clearOneWay_effects hreads (decodeHeader raw))
        cases hcase : ((s₀.acceptHeader c raw).clearOneWay c (decodeHeader raw)).recvUdp c
            (decodeHeader raw) r.recvfrom with
        | mk s₁ m =>
          have hproto : (((s₀.acceptHeader c raw).clearOneWay c (decodeHeader raw)).conn
              c).protocolType = .udp := by
            rw [Conn.protocolType, clearOneWay_remoteAddress, acceptHeader_remoteAddress]
            exact hudp
          -- Accepting the header has changed no field that `recvfrom` looks at.
          have hfields : ((s₀.acceptHeader c raw).clearOneWay c (decodeHeader raw)).recvfrom c
                r.recvfrom = s₀.recvfrom c r.recvfrom ∧
              (((s₀.acceptHeader c raw).clearOneWay c (decodeHeader raw)).conn c).forListening =
                (s₀.conn c).forListening ∧
              (((s₀.acceptHeader c raw).clearOneWay c (decodeHeader raw)).conn c).remoteAddress =
                (s₀.conn c).remoteAddress := by
            obtain ⟨id, hc, hsockets⟩ := acceptHeader_udp hudp raw
            simp [recvfrom, socketOf, hc, hsockets]
          -- The tables are as they were too.
          have htables : ((s₀.acceptHeader c raw).clearOneWay c (decodeHeader raw)).connStatus =
                s₀.connStatus ∧
              ((s₀.acceptHeader c raw).clearOneWay c (decodeHeader raw)).status = s₀.status := by
            simp only [acceptHeader, takeHeader, if_neg hnot, clearOneWay]
            split <;> exact ⟨rfl, rfl⟩
          have hkind : (decodeHeader raw).kind ≠ .close := by
            intro hk
            rw [eventFor, hk] at hevent
            exact absurd hevent.symm (Option.some_ne_none event)
          obtain ⟨hrecv, hm⟩ := recvUdp_effects hreads hudp hproto hfields.1 hfields.2 htables
            (by simpa using hlisted) hpeek hkind hcase
          simp only [hcase] at h
          cases m with
          | none =>
            simp only [Prod.mk.injEq] at h
            obtain ⟨rfl, rfl⟩ := h
            exact ⟨fun _ => .stays (hclear.trans hrecv), fun hm => nomatch hm⟩
          | some m =>
            obtain ⟨hheader, hready⟩ := hm m rfl
            have hfinal := handleMessage_final hreads (hheader ▸ hevent) hready h
            exact ⟨fun hm => .reports (hclear.trans hrecv) (hfinal.2 hm),
              fun hm => ⟨_, hclear.trans hrecv, .inr (hfinal.1 hm)⟩⟩

/-! ## Calls by the application -/

/-- Changing a poll mode leaves the descriptors in their places. -/
private theorem map_fd_modify (pollFds : List PollFd) (index : Nat) (mode : PollMode) :
    (pollFds.modify index fun pollFd => { pollFd with events := mode }).map PollFd.fd =
      pollFds.map PollFd.fd := by
  apply List.ext_getElem?
  intro j
  rw [List.getElem?_map, List.getElem?_map, List.getElem?_modify]
  cases pollFds[j]? with
  | none => rfl
  | some pollFd => split <;> rfl

/-- The fields of a conn that `open_socket` makes, once it has a socket. -/
def openedConn (s : State) (address : CString) (connContext : Ptr) (callback : Nat)
    (forListening : Bool) (sock : Sock) : Conn :=
  { connContext := connContext
    callback := callback
    remoteAddress := (parseAddressStr address ⟨0, 0, .other⟩).1
    socket := sock
    forListening := forListening
    index := s.conns.length }

/-- `setup_sockaddr` of a new conn fails, and then the conn is to be freed, or it lists the
    conn. -/
theorem setupSockaddr_new (s : State) (address : CString) (connContext : Ptr) (callback : Nat)
    (forListening : Bool) (sock : Except Errno Sock) :
    (∃ msg, Input.setupFails address sock = true ∧
      (s.newConnection connContext callback forListening).setupSockaddr s.nextConn address sock =
      ((s.allocConn { s.openedConn address connContext callback forListening 0 with
          index := 0 }).sendCallback s.nextConn .error (some (msgNewData msg))
            (.conn s.nextConn) .other, false)) ∨
      ∃ newSock contents, (parseAddressStr address ⟨0, 0, .other⟩).2 = none ∧ sock = .ok newSock ∧
        (s.newConnection connContext callback forListening).setupSockaddr s.nextConn address sock =
          ((((s.openDescriptor newSock contents).allocConn
              (s.openedConn address connContext callback forListening newSock)).addToConns
                s.nextConn).addToPollFds newSock, true) := by
  unfold setupSockaddr
  simp only [newConnection_conn, Function.update_self]
  split
  -- The address cannot be parsed.
  · rename_i msg hmsg
    refine .inl ⟨msg, by simp [Input.setupFails, hmsg], ?_⟩
    simp [sendCallbackError, sendCallback, modifyConn, newConnection, allocConn, openedConn]
  · split
    -- `socket` fails.
    · rename_i e
      refine .inl ⟨snprintf 1024 ("socket" ++ ": " ++ errStr e), Bool.or_true _, ?_⟩
      simp [sendCallbackOsError, sendCallbackError, sendCallback, modifyConn, newConnection,
        allocConn, openedConn]
    · rename_i hparsed _ newSock
      refine .inr ⟨newSock, if (parseAddressStr address ⟨0, 0, .other⟩).1.protocolType = .tcp then
        .stream [] false else .dgram [], hparsed, rfl, ?_⟩
      simp [addToConns, addToPollFds, openDescriptor, modifyConn, newConnection, allocConn,
        openedConn]

/-- A conn that was listed as the last one is taken out again, and is to be freed. -/
theorem removeLast_fail (s : State) (k : Conn) (name : String) (e : Errno) :
    (((((s.allocConn k).addToConns s.nextConn).addToPollFds k.socket).sendCallbackOsError
        s.nextConn name e (.conn s.nextConn)).removeLastPollingConn) =
      (s.allocConn k).sendCallback s.nextConn .error
        (some (msgNewData (snprintf 1024 (name ++ ": " ++ errStr e)))) (.conn s.nextConn)
          .other := by
  simp [removeLastPollingConn, sendCallbackOsError, sendCallbackError, sendCallback, addToConns,
    addToPollFds, allocConn]

/-- `open_socket` opens a conn, or fails and queues its error. -/
private theorem openSocket_effects {address : CString} {connContext : Ptr} {callback : Nat}
    {forListening : Bool} {o : OpenIn}
    (hopens : i.Opens s₀ (parseAddressStr address ⟨0, 0, .other⟩).1 forListening)
    (hnew : s₀.isNewSock o.socket = true)
    (hleaks : Input.openLeaks address forListening o = true → i.leaks s₀ = true)
    (hfailed : Input.openFails address forListening o = true →
      i.failedOpen = some (parseAddressStr address ⟨0, 0, .other⟩).1) :
    Effects s₀ i s₀ (s₀.openSocket address connContext callback forListening o) := by
  unfold openSocket
  dsimp only
  rcases setupSockaddr_new s₀ address connContext callback forListening o.socket with
    ⟨msg, hfails, heq⟩ | ⟨newSock, contents, hparsed, hsocket, heq⟩
  -- Without a socket the conn was never listed.
  · rw [heq]
    refine ⟨s₀, .refl, .inr (.fail _ msg hopens rfl rfl rfl (hfailed ?_))⟩
    rw [Input.openFails, hfails, Bool.true_or]
  · rw [heq]
    have hnew : s₀.sockets newSock = none := by
      rw [hsocket] at hnew
      exact Option.isNone_iff_eq_none.mp hnew
    -- All later exits leave the socket open.
    have hleak : Input.openLeaks address forListening o = true →
        Relation.ReflTransGen (Effect s₀ i) s₀ (s₀.openDescriptor newSock contents) :=
      fun hfails => .single (.early (.leak contents hnew (hleaks hfails)))
    generalize hk : s₀.openedConn address connContext callback forListening newSock = k
    have hopens' : i.Opens s₀ k.remoteAddress k.forListening := by
      subst hk
      exact hopens
    have hproto : ((((((s₀.openDescriptor newSock contents).allocConn k).addToConns
        s₀.nextConn).addToPollFds newSock).conn s₀.nextConn).protocolType) =
          (parseAddressStr address ⟨0, 0, .other⟩).1.protocolType := by
      rw [← hk]
      simp [openedConn, Conn.protocolType]
    -- They report an error and take the conn out of the arrays again.
    have hfail : Input.openLeaks address forListening o = true → ∀ name e, Effects s₀ i s₀
        (((((s₀.openDescriptor newSock contents).allocConn k).addToConns s₀.nextConn).addToPollFds
          newSock).sendCallbackOsError s₀.nextConn name e (.conn s₀.nextConn)
            |>.removeLastPollingConn) := by
      intro hfails name e
      have hlast := removeLast_fail (s₀.openDescriptor newSock contents) k name e
      rw [show k.socket = newSock by rw [← hk]; rfl, openDescriptor_nextConn] at hlast
      refine ⟨_, hleak hfails, .inr ?_⟩
      rw [hlast]
      refine .fail k _ hopens' rfl (by rw [← hk]; rfl) (by rw [← hk]; rfl) ?_
      rw [← hk]
      exact hfailed (by rw [Input.openFails, hfails, Bool.or_true])
    have hopened : Relation.ReflTransGen (Effect s₀ i) s₀
        ((((s₀.openDescriptor newSock contents).allocConn k).addToConns s₀.nextConn).addToPollFds
          newSock) := by
      have hsock : k.socket = newSock := by rw [← hk]; rfl
      have hsingle := Relation.ReflTransGen.single (Effect.opened k contents hopens'
        (hsock ▸ hnew) rfl rfl (by rw [← hk]; rfl) (by rw [← hk]; rfl) (by rw [← hk]; rfl))
      rw [hsock] at hsingle
      exact hsingle
    dsimp only
    rw [hproto]
    split
    -- `set_non_blocking` fails.
    · rename_i hblocking
      exact hfail (by simp [Input.openLeaks, hparsed, hsocket, hblocking]) _ _
    · split
      · rename_i e hopener
        split
        -- A connect in progress is polled for writing.
        · rename_i hconnect
          refine ⟨_, hopened.tail (.early (.poll _ (map_fd_modify _ _ _) ?_)), .inl rfl⟩
          intro j p hp hwrite
          rw [List.getElem?_modify] at hp
          split at hp
          -- The new conn is the only one that may be written to besides.
          · rename_i hj
            refine .inr ⟨s₀.nextConn, ?_, ?_⟩
            · rw [← hj]
              simp
            · simp [← hk, openedConn, hconnect.1]
          · refine .inl ⟨p, ?_, hwrite⟩
            simpa using hp
        -- `bind` or `connect` fails for good.
        · rename_i hfails
          apply hfail
          simp only [Input.openLeaks, hparsed, hsocket, hopener, Option.isNone_none, Bool.and_self,
            Bool.true_and, Bool.or_eq_true, Bool.and_eq_true, decide_eq_true_eq]
          refine .inr ?_
          by_contra hnot
          push Not at hnot
          exact hfails ⟨hnot.1.1, hnot.1.2, by tauto⟩
      · rename_i hopener
        split
        -- A listening conn has its own event.
        · rename_i hlistening
          split
          · rename_i e hlisten
            apply hfail
            split at hlisten
            · rename_i htcp
              simp [Input.openLeaks, hparsed, hsocket, hopener, hlistening, htcp, hlisten]
            · exact absurd hlisten.symm (Option.some_ne_none e)
          · exact ⟨_, hopened.tail (.listening rfl (by simp)), .inl rfl⟩
        -- A conn that is connected has seen its remote.
        · rename_i hlistening
          refine ⟨_, hopened.trans (effects_early (early_remoteAddressSeen (by simp)
            (.opened rfl ?_ ?_))), .inl rfl⟩
          · simp [← hk, openedConn, hlistening]
          · simp [← hk, openedConn]

/-- All that `send_data` does to the state is an observation. -/
theorem sendData_fst (s : State) (c : ConnId) (frame : List UInt8) (w : SendIn) :
    (s.sendData c frame w).1 = s.log (.sent c (s.conn c).socket (s.sendOutcome c frame w).1
      (s.sendOutcome c frame w).2) := by
  unfold sendData sendOutcome
  dsimp only
  cases s.sockets (s.conn c).socket with
  | none => rfl
  | some k =>
    dsimp only
    split
    · rfl
    · cases w.result <;> rfl

/-- Whether the system calls fail depends only on the conn and its socket. -/
theorem sendData_congr {s' : State} (hconn : s'.conn c = s.conn c)
    (hsockets : s'.sockets = s.sockets)
    (frame : List UInt8) (w : SendIn) : (s'.sendData c frame w).2 = (s.sendData c frame w).2 := by
  unfold sendData
  rw [hconn, hsockets]
  dsimp only
  split
  · rfl
  · split
    · rfl
    · split <;> rfl

/-- The outcome depends only on the conn and its socket. -/
theorem sendOutcome_congr {s' : State} (hconn : s'.conn c = s.conn c)
    (hsockets : s'.sockets = s.sockets)
    (frame : List UInt8) (w : SendIn) : s'.sendOutcome c frame w = s.sendOutcome c frame w := by
  unfold sendOutcome
  rw [hconn, hsockets]

/-- A failed send is reported, and nothing else happens. -/
private theorem early_reportSend (failed : Option (String × Errno))
    (herrs : failed.isSome = true → i.Errs s₀ c) :
    Relation.ReflTransGen (Early s₀ i) s (s.reportSend c failed) := by
  unfold reportSend
  split
  · exact .single (early_osError (herrs rfl) _ _)
  · exact .refl

/-- Early effects leave the phase. -/
private theorem early_phase (h : Relation.ReflTransGen (Early s₀ i) s₀ s) : s.phase = s₀.phase := by
  induction h with
  | refl => rfl
  | tail _ heffect ih => cases heffect <;> exact ih

/-- A call of `local_disconnect` by the application leaves the phase as it is. -/
private theorem final_drop {event : Event} {call : AppCall} (hcalls : i.Calls s₀ call)
    (hearly : Relation.ReflTransGen (Early s₀ i) s₀ s) (hdrops : i.Drops s₀ c)
    (hevent : event.isClosing = true) : Final s₀ i s (s.localDisconnect c event) := by
  have hphase : s.phase = .app := (early_phase hearly).trans hcalls.phase
  have hdrop := Final.drop hearly hdrops hevent (by rw [hphase]; rfl) (.back hcalls)
  rw [← hphase, ← localDisconnect_phase s c event] at hdrop
  exact hdrop

/-- `msg_unlisten` refuses a conn that does not listen, or closes its descriptor and drops it. -/
private theorem msgUnlisten_effects {result : Option Errno}
    (hcalls : i.Calls s₀ (.unlisten (some c) result)) :
    Effects s₀ i s₀ (s₀.msgUnlisten c result) := by
  unfold msgUnlisten
  split
  · rename_i hnot
    exact ⟨_, .single (.early (.error _ (.unlisten hcalls (.inl (by simpa using hnot))))), .inl rfl⟩
  · rename_i hlistening
    have hlistening : (s₀.conn c).forListening = true := by simpa using hlistening
    have hunflag : Relation.ReflTransGen (Early s₀ i) s₀
        (s₀.modifyConn c fun conn => { conn with forListening := false }) :=
      .single (.unflag hcalls hlistening rfl)
    -- The flag is cleared and the descriptor closed in any case.
    have hclosed : Relation.ReflTransGen (Early s₀ i) s₀
        ((s₀.modifyConn c fun conn => { conn with forListening := false }).closesocket
          (s₀.conn c).socket) :=
      hunflag.tail (.close hcalls hlistening)
    have hsock : ((s₀.modifyConn c fun conn => { conn with forListening := false }).conn c).socket =
        (s₀.conn c).socket := by
      simp
    dsimp only
    rw [hsock]
    have herr : (s₀.modifyConn c fun conn => { conn with forListening := false }).closeError
        (s₀.conn c).socket result = s₀.closeError (s₀.conn c).socket result := rfl
    rw [herr]
    split
    -- `close` succeeds, and `local_disconnect` follows.
    · rename_i hnone
      exact ⟨_, effects_early hclosed, .inr (final_drop hcalls hclosed
        (.unlisten hcalls hlistening (by rw [hnone]; exact fun h => nomatch h)) rfl)⟩
    · rename_i e hsome
      -- `close` fails, which is reported; on `EBADF` alone the function returns then.
      have hreport := hclosed.tail
        (early_osError (.unlisten hcalls (.inr (by rw [hsome]; rfl))) "close" e)
      split
      · exact ⟨_, effects_early hreport, .inl rfl⟩
      · rename_i hbad
        exact ⟨_, effects_early hreport, .inr (final_drop hcalls hreport
          (.unlisten hcalls hlistening (by rw [hsome]; simpa using hbad)) rfl)⟩

/-- `msg_disconnect` sends a close frame, reports if that failed, and drops the conn. -/
private theorem msgDisconnect_effects {w : SendIn} (hcalls : i.Calls s₀ (.disconnect c w)) :
    Effects s₀ i s₀ (s₀.msgDisconnect c w) := by
  unfold msgDisconnect
  dsimp only
  rw [sendData_fst]
  have hdisconnected : Early s₀ i s₀ (s₀.log (.disconnected c (s₀.conn c).remoteAddress)) :=
    .note _ rfl (.disconnected hcalls)
  have hsent : i.Notes s₀ (s₀.log (.disconnected c (s₀.conn c).remoteAddress))
      (.sent c (s₀.conn c).socket (s₀.sendOutcome c (setHeader .close 0 0) w).1
        (s₀.sendOutcome c (setHeader .close 0 0) w).2) :=
    .sent (.disconnect hcalls) rfl
  have hnoted := (Relation.ReflTransGen.single hdisconnected).tail (.note _ rfl hsent)
  -- The observation that comes first changes nothing for `send_data`.
  have hsame : ((s₀.log (.disconnected c (s₀.conn c).remoteAddress)).sendData c
      (setHeader .close 0 0) w).2 = (s₀.sendData c (setHeader .close 0 0) w).2 :=
    sendData_congr (by rfl) (by rfl) _ w
  have hreport := hnoted.trans (early_reportSend
    ((s₀.log (.disconnected c (s₀.conn c).remoteAddress)).sendData c (setHeader .close 0 0) w).2
    fun hfailed => .disconnect hcalls (by rw [hsame] at hfailed; exact hfailed))
  exact ⟨_, effects_early hreport, .inr (final_drop hcalls hreport (.disconnect hcalls) rfl)⟩

/-- `msg_send` sends one frame, and reports if that failed. -/
private theorem msgSend_effects {payload : List UInt8} {w : SendIn}
    (hcalls : i.Calls s₀ (.send c payload w)) :
    Effects s₀ i s₀ (s₀.msgSend c payload w) := by
  unfold msgSend
  dsimp only
  rw [sendData_fst]
  have hnoted : Relation.ReflTransGen (Early s₀ i) s₀
      (s₀.log (.sent c (s₀.conn c).socket (s₀.sendOutcome c (s₀.sendFrame c payload) w).1
        (s₀.sendOutcome c (s₀.sendFrame c payload) w).2)) :=
    .single (.note _ rfl (.sent (.send hcalls) rfl))
  unfold reportSend
  split
  · rename_i name e hfailed
    have hfails : s₀.sendFails c (s₀.sendFrame c payload) w = true := by
      rw [sendFails, hfailed]
      rfl
    exact ⟨_, effects_early (hnoted.tail (early_osError (.send hcalls hfails) name e)), .inl rfl⟩
  · exact ⟨_, effects_early hnoted, .inl rfl⟩

/-- `msg_get` enters the context, and sends a request or reports that it failed. -/
private theorem msgGet_effects {payload : List UInt8} {context : Ptr} {now : Nat} {w : SendIn}
    (hcalls : i.Calls s₀ (.get c payload context now w)) :
    Effects s₀ i s₀ (s₀.msgGet c payload context now w) := by
  unfold msgGet
  split
  -- Without a status there is only the error.
  · rename_i hnone
    refine ⟨_, .single (.early (.error _ (.get hcalls ?_))), .inl rfl⟩
    rw [getFails, hnone]
  · rename_i sid hsid
    dsimp only
    have hsent : ((s₀.enterGet sid context).sendData c
        (setHeader .request (s₀.status sid).nextReplyId payload.length ++ payload) w).1 =
          (s₀.enterGet sid context).log (.sent c (s₀.conn c).socket (s₀.sendOutcome c
            (setHeader .request (s₀.status sid).nextReplyId payload.length ++ payload) w).1
            (s₀.sendOutcome c
              (setHeader .request (s₀.status sid).nextReplyId payload.length ++ payload) w).2) :=
      sendData_fst (s₀.enterGet sid context) c _ w
    have hnotes : i.Notes s₀ s₀ (.sent c (s₀.conn c).socket (s₀.sendOutcome c
        (setHeader .request (s₀.status sid).nextReplyId payload.length ++ payload) w).1
        (s₀.sendOutcome c
          (setHeader .request (s₀.status sid).nextReplyId payload.length ++ payload) w).2) :=
      .sent (.get hcalls hsid) rfl
    generalize s₀.sendOutcome c (setHeader .request (s₀.status sid).nextReplyId payload.length ++
      payload) w = outcome at hsent hnotes
    obtain ⟨accepted, complete⟩ := outcome
    -- The system calls do not depend on what was entered.
    have hfails : s₀.getFails c payload w = ((s₀.enterGet sid context).sendData c
        (setHeader .request (s₀.status sid).nextReplyId payload.length ++ payload) w).2.isSome := by
      have hsame : ((s₀.enterGet sid context).sendData c
          (setHeader .request (s₀.status sid).nextReplyId payload.length ++ payload) w).2 =
            (s₀.sendData c
              (setHeader .request (s₀.status sid).nextReplyId payload.length ++ payload) w).2 :=
        sendData_congr (by rfl) (by rfl) _ w
      rw [getFails, hsid, hsame]
      rfl
    cases hcase : (s₀.enterGet sid context).sendData c
      (setHeader .request (s₀.status sid).nextReplyId payload.length ++ payload) w with
    | mk s₁ failed =>
      rw [hcase] at hsent hfails
      dsimp only at hsent hfails
      subst hsent
      have hcase' := hcase
      unfold enterGet at hcase'
      simp only [modifyStatus]
      rw [hcase']
      cases failed with
      -- The request is out, and its timeout is added.
      | none =>
        have hget := Effect.get (s := s₀.log (.sent c (s₀.conn c).socket accepted complete)) hcalls
          rfl rfl hsid
          hfails
        exact ⟨_, (Relation.ReflTransGen.single (.early (.note _ rfl hnotes))).tail hget, .inl rfl⟩
      -- The entry stays without a timeout, and the error is reported.
      | some failedSysCall =>
        obtain ⟨name, e⟩ := failedSysCall
        have hget := Effect.failedGet (s := s₀.log (.sent c (s₀.conn c).socket accepted complete))
          hcalls rfl rfl hsid hfails
        exact ⟨_, ((Relation.ReflTransGen.single (.early (.note _ rfl hnotes))).tail hget).tail
          (.early (early_osError (.get hcalls hfails) name e)), .inl rfl⟩

/-- Every call by the application is made of effects. -/
theorem appCall_effects {call : AppCall} (hcalls : i.Calls s₀ call) :
    Effects s₀ i s₀ (s₀.appCall call) := by
  cases call with
  | listen address callback o =>
    apply openSocket_effects (.listen hcalls) hcalls.admits
    · intro hleaks
      rw [hcalls.input]
      exact hleaks
    · intro hfails
      rw [hcalls.input, Input.failedOpen, if_pos hfails]
  | connect address callback connContext o =>
    apply openSocket_effects (.connect hcalls) hcalls.admits
    · intro hleaks
      rw [hcalls.input]
      exact hleaks
    · intro hfails
      rw [hcalls.input, Input.failedOpen, if_pos hfails]
  | unlisten conn result =>
    cases conn with
    | none => exact ⟨_, .refl, .inl rfl⟩
    | some c => exact msgUnlisten_effects hcalls
  | disconnect c w => exact msgDisconnect_effects hcalls
  | send c payload w => exact msgSend_effects hcalls
  | get c payload context now w => exact msgGet_effects hcalls
  | setConnContext c connContext => exact ⟨_, .single (.context connContext hcalls), .inl rfl⟩
  | setRemoteAddress c ip port => exact ⟨_, .single (.address hcalls rfl), .inl rfl⟩

/-! ## The run loop -/

/-- `poll` leaves the descriptors in their places. -/
private theorem map_fd_fillRevents (pollFds : List PollFd) (revents : List Revents) :
    (fillRevents pollFds revents).map PollFd.fd = pollFds.map PollFd.fd := by
  apply List.ext_getElem?
  intro j
  rw [fillRevents, List.getElem?_map, List.getElem?_map, List.getElem?_mapIdx]
  cases pollFds[j]? <;> rfl

/-- After `poll` no more entries may be written to than before. -/
private theorem mayWrite_fillRevents {pollFds : List PollFd} {revents : List Revents} {j : Nat}
    {p : PollFd} (hp : (fillRevents pollFds revents)[j]? = some p) (hwrite : p.mayWrite = true) :
    ∃ p', pollFds[j]? = some p' ∧ p'.mayWrite = true := by
  rw [fillRevents, List.getElem?_mapIdx] at hp
  obtain ⟨p', hp', rfl⟩ := Option.map_eq_some_iff.mp hp
  refine ⟨p', hp', ?_⟩
  -- `POLLOUT` is reported only where it was asked for.
  simp only [PollFd.mayWrite, Bool.or_eq_true, Bool.and_eq_true] at hwrite ⊢
  exact hwrite.elim .inl fun h => .inl h.2

/-- Setting an entry to reading lets no other one be written to. -/
private theorem mayWrite_setRead {index : Nat} {j : Nat} {p : PollFd}
    (hp : (s.setConnToPollMode index .read).pollFds[j]? = some p) (hwrite : p.mayWrite = true) :
    ∃ p', s.pollFds[j]? = some p' ∧ p'.mayWrite = true := by
  rw [setConnToPollMode_pollFds, List.getElem?_modify] at hp
  obtain ⟨p', hp', heq⟩ := Option.map_eq_some_iff.mp hp
  refine ⟨p', hp', ?_⟩
  split at heq
  · subst heq
    have hpollout : p'.revents.pollout = true := hwrite
    simp [PollFd.mayWrite, hpollout]
  · exact heq ▸ hwrite

/-- The removal pass leaves the phase. -/
theorem removalPass_phase (s : State) : s.removalPass.phase = s.phase := by
  obtain ⟨index, h⟩ := removalPass_eq s
  rw [h]

/-- `msg_runloop` removes what was marked, and polls if there are conns. -/
private theorem beginRunloop_effects {p : PollResult} (hinput : i = .runloop p)
    (hphase : s₀.phase = .app) :
    Relation.ReflTransGen (Effect s₀ i) s₀ (s₀.beginRunloop p) := by
  have hsaved : s₀.removalPass.phase.saved = [] := by
    rw [removalPass_phase, hphase]
    rfl
  have hremoval : Relation.ReflTransGen (Effect s₀ i) s₀ s₀.removalPass :=
    .single (.removal (.inr ⟨p, hinput⟩) rfl)
  have hidle : i.Advances s₀ .timing :=
    .idle (.inr ⟨p, hinput⟩) fun h => Input.noConfusion (hinput.symm.trans h)
  have htiming := hremoval.tail (.phase .timing hsaved hidle fun h => nomatch h)
  unfold beginRunloop
  dsimp only
  split
  -- Without conns there is nothing to poll.
  · exact htiming
  · split
    · exact htiming
    · exact htiming
    -- `poll` fills in what it reports, and the pass begins.
    · rename_i revents
      refine (hremoval.tail (.early (.poll (fillRevents s₀.removalPass.pollFds revents)
        (map_fd_fillRevents _ _) (fun j p hp hwrite => .inl ?_)))).tail
          (.phase (.polling 0) hsaved (.poll hinput) fun _ => rfl)
      exact mayWrite_fillRevents hp hwrite

/-- A visit refuses a connect, or sees the address and moves on. -/
private theorem visitConn_effects {index : Nat} {soError : Option Errno}
    (hvisits : i.Visits s₀ c index soError) :
    Effects s₀ i s₀ (s₀.visitConn index c soError) := by
  have hsaved : s₀.phase.saved = [] := by rw [hvisits.phase]; rfl
  have hnext : i.Advances s₀ (if (s₀.reventsAt index).pollin then .reading index
      else .polling (index + 1)) := by
    split
    · exact .read hvisits
    · exact .skip hvisits
  unfold visitConn
  dsimp only
  split
  -- `POLLERR` with a refused or timed out connect marks the conn.
  · rename_i herr
    exact ⟨s₀, .refl, .inr (.refuse _ hvisits rfl herr.1 herr.2)⟩
  · split
    -- The connect is complete: the remote is seen, and from now on the conn reads.
    · rename_i hpollout
      have hlisted : c ∈ s₀.conns := List.mem_of_getElem? hvisits.listed
      have hseen := effects_early (early_remoteAddressSeen (s := s₀) hlisted
        (.visit hvisits hpollout))
      have hmode := hseen.tail (.early (.poll
        ((s₀.remoteAddressSeen c).1.setConnToPollMode index .read).pollFds
        (map_fd_modify _ _ _) (fun j p hp hwrite => .inl (mayWrite_setRead hp hwrite))))
      have hphase : (s₀.remoteAddressSeen c).1.phase = s₀.phase := by
        unfold remoteAddressSeen
        split <;> rfl
      refine ⟨_, hmode.tail (.phase _ ?_ hnext fun h => ?_), .inl rfl⟩
      · rw [hphase]
        exact hsaved
      · exact absurd h (by split <;> exact fun h => nomatch h)
    · refine ⟨_, .single (.phase _ hsaved hnext fun h => ?_), .inl rfl⟩
      exact absurd h (by split <;> exact fun h => nomatch h)

/-- One round of the timeout loop is one effect. -/
private theorem expire_effect {now : Nat} {t : Timeout} {rest : List Timeout} {s' : State}
    (hinput : i = .timeouts now) (hdue : t ∈ s₀.timeouts.takeWhile fun t => t.at_ ≤ now)
    (hpass : ∃ pre, s₀.timeouts = pre ++ t :: rest ∧ ∀ t' ∈ pre ++ [t], t'.at_ ≤ now)
    (htimeouts : s.timeouts = t :: rest) (h : s.expire t rest = some s') :
    Effect s₀ i s s' ∧ s'.timeouts = rest ∧ s'.phase = s.phase := by
  unfold expire at h
  split at h
  -- The conn was freed, or the status deleted.
  · exact nomatch h
  · rename_i hlive
    split at h
    -- The entry is gone, which the source asserts not to happen.
    · exact nomatch h
    · rename_i context hlookup
      obtain rfl := Option.some.inj h
      refine ⟨?_, rfl, rfl⟩
      refine .expire hinput hdue htimeouts (by simpa using (not_or.mp hlive).1) hlookup
        ⟨rfl, ?_⟩ hpass
      -- Only entries of the status were written.
      dsimp only
      by_cases heq : (rest.headD t).status = t.status
      · rw [heq, modifyStatus_status, Function.update_self, modifyConn_status]
      · rw [modifyStatus_status, Function.update_of_ne heq, modifyConn_status]

/-- The timeout loop, by induction on the timeouts that are left. -/
private theorem timeoutLoop_effects {now : Nat} (hinput : i = .timeouts now) {pre l : List Timeout}
    (hpre : s₀.timeouts = pre ++ l) (hdue : ∀ t ∈ pre, t.at_ ≤ now) (htimeouts : s.timeouts = l)
    {s' : State} (h : timeoutLoop now l s = some s') :
    Relation.ReflTransGen (Effect s₀ i) s s' ∧ s'.phase = s.phase := by
  induction l generalizing pre s with
  | nil =>
    obtain rfl := Option.some.inj h
    exact ⟨.refl, rfl⟩
  | cons t rest ih =>
    rw [timeoutLoop] at h
    split at h
    -- The first timeout that is not due ends the loop.
    · obtain rfl := Option.some.inj h
      exact ⟨.refl, rfl⟩
    -- A due one is handled, and the loop goes on with the rest.
    · rename_i hnow
      have ht : t.at_ ≤ now := by omega
      obtain ⟨s₁, hexpire, hloop⟩ := Option.bind_eq_some_iff.mp h
      have hmem : t ∈ s₀.timeouts.takeWhile fun t => t.at_ ≤ now := by
        rw [hpre, List.takeWhile_append_of_pos (by simpa using hdue),
          List.takeWhile_cons_of_pos (by simpa using ht)]
        simp
      have hdue' : ∀ t' ∈ pre ++ [t], t'.at_ ≤ now := by
        intro t' ht'
        rcases List.mem_append.mp ht' with hin | hin
        · exact hdue t' hin
        · rw [List.mem_singleton.mp hin]
          exact ht
      obtain ⟨heffect, hrest, hphase⟩ :=
        expire_effect hinput hmem ⟨pre, hpre, hdue'⟩ htimeouts hexpire
      obtain ⟨heffects, hphase'⟩ :=
        ih (by rw [hpre]; exact List.append_cons pre t rest) hdue' hrest hloop
      exact ⟨(Relation.ReflTransGen.single heffect).trans heffects, hphase'.trans hphase⟩

/-- The timeout pass ends with the swap of the queue. -/
theorem timeoutPass_effects {now : Nat} (hinput : i = .timeouts now) (hphase : s₀.phase = .timing)
    {s' : State} (h : s₀.timeoutPass now = some s') :
    Relation.ReflTransGen (Effect s₀ i) s₀ s' := by
  obtain ⟨s₁, hloop, rfl⟩ := Option.map_eq_some_iff.mp h
  obtain ⟨heffects, hphase'⟩ := timeoutLoop_effects hinput (List.nil_append s₀.timeouts).symm
    (fun _ h => absurd h List.not_mem_nil) rfl hloop
  exact heffects.tail (.swap hinput (hphase'.trans hphase))

/-- The network is an early effect of any step. -/
private theorem environment_effect {e : EnvEvent} {s' : State} (h : s.environment e = some s') :
    Early s₀ i s s' := by
  obtain ⟨sock, k, k', hsock, rfl⟩ := environment_eq h
  apply Early.kernel
  apply isSome_update
  rw [hsock]
  rfl

/-- Nothing that a call of `read_from_socket` does leaves calls to be made in its phase. -/
private theorem reads_saved {r : ReadIn} (hreads : i.Reads s₀ c r) {s s' : State}
    (h : Relation.ReflTransGen (Effect s₀ i) s s') (hsaved : s.phase.saved = []) :
    s'.phase.saved = [] := by
  induction h with
  | refl => exact hsaved
  | tail _ heffect ih =>
    cases heffect with
    | early hearly => cases hearly <;> exact ih
    | swap hinput => exact nomatch hreads.input.symm.trans hinput
    | phase ph hold hnext => exact hnext.saved
    | call hinput => exact nomatch hreads.input.symm.trans hinput
    | finish hinput => exact nomatch hreads.input.symm.trans hinput
    | removal hinput =>
      rcases hinput with hinput | ⟨p, hinput⟩
      · exact nomatch hreads.input.symm.trans hinput
      · exact nomatch hreads.input.symm.trans hinput
    | _ => exact ih

end State

open State in
/-- Every step is made of effects. -/
theorem step_effects {s s' : State} {i : Input} (h : step s i = some s') : Effects s i s s' := by
  cases i with
  | env e => exact ⟨s', .single (.early (environment_effect h)), .inl rfl⟩
  | app call =>
    obtain ⟨hphase, hadmits, rfl⟩ := step_app h
    exact appCall_effects ⟨rfl, hphase, hadmits⟩
  | runloop p =>
    obtain ⟨hphase, -, rfl⟩ := step_runloop h
    exact ⟨_, beginRunloop_effects rfl hphase, .inl rfl⟩
  | visit soError =>
    obtain ⟨index, c, hphase, hlisted, hlive, rfl⟩ := step_visit h
    exact visitConn_effects ⟨rfl, hphase, hlisted, hlive⟩
  | read r =>
    obtain ⟨index, c, hphase, hlisted, hlive, hproto, hnew, rfl⟩ := step_read h
    have hreads : (Input.read r).Reads s c r := ⟨rfl, ⟨index, hphase, hlisted⟩, hlive, hproto, hnew⟩
    have hsaved : s.phase.saved = [] := by rw [hphase]; rfl
    have hnext : (Input.read r).Advances s (.polling (index + 1)) := .next rfl hphase
    cases hread : s.readFromSocket c r with
    | mk s₁ again =>
      have hcases := readFromSocket_effects hreads hread
      cases again with
      | true => exact hcases.2 rfl
      | false =>
        cases hcases.1 rfl with
        -- Nothing more to report: the pass moves on to the next conn.
        | stays heffects =>
          exact ⟨_, heffects.tail (.phase _ (reads_saved hreads heffects hsaved) hnext
            fun heq => absurd (Phase.polling.inj heq) (Nat.succ_ne_zero index)), .inl rfl⟩
        | drops hearly hdrops hevent =>
          have hsaved' := reads_saved hreads (effects_early hearly) hsaved
          exact ⟨_, effects_early hearly, .inr (.drop hearly hdrops hevent hsaved' hnext)⟩
        | reports hsteps hfinal =>
          exact ⟨_, hsteps, .inr (hfinal _ (reads_saved hreads hsteps hsaved) hnext)⟩
  | endPoll =>
    obtain ⟨index, hphase, -, rfl⟩ := step_endPoll h
    refine ⟨_, (Relation.ReflTransGen.single (.removal (.inl rfl) rfl)).tail
      (.phase .timing ?_ (.idle (.inl rfl) fun _ => ?_) Phase.noConfusion), .inl rfl⟩
    · rw [removalPass_phase, hphase]
      rfl
    · rw [hphase]
      exact Phase.noConfusion
  | timeouts now =>
    obtain ⟨hphase, hpass⟩ := step_timeouts h
    exact ⟨s', timeoutPass_effects rfl hphase hpass, .inl rfl⟩
  | deliver junk =>
    rcases step_deliver h with ⟨hphase, rfl⟩ | ⟨call, rest, hphase, hlive, rfl⟩
    · exact ⟨_, .single (.phase .app (by rw [hphase]; rfl) (.done rfl hphase)
        Phase.noConfusion), .inl rfl⟩
    · exact ⟨_, .single (.call rfl rfl hphase hlive), .inl rfl⟩
  | ret =>
    obtain ⟨f, stack, hphase, hstack, hlive, rfl⟩ := step_ret h
    exact ⟨_, .single (.finish rfl rfl hphase hstack hlive), .inl rfl⟩

/-- The invariant rule for one step: it is enough to look at one effect at a time. -/
theorem step_invariant (Inv : State → Prop) {s s' : State} {i : Input} (hinv : Inv s)
    (heffect : ∀ {s₁ s₂ : State}, Relation.ReflTransGen (Effect s i) s s₁ → Inv s₁ →
      Effect s i s₁ s₂ → Inv s₂)
    (hfinal : ∀ {s₁ s₂ : State}, Relation.ReflTransGen (Effect s i) s s₁ → Inv s₁ →
      Final s i s₁ s₂ → Inv s₂)
    (h : step s i = some s') : Inv s' := by
  obtain ⟨s₁, heffects, hlast⟩ := step_effects h
  have hinv₁ : Inv s₁ := by
    clear hlast
    induction heffects with
    | refl => exact hinv
    | tail hsteps hlast ih => exact heffect hsteps ih hlast
  rcases hlast with rfl | hlast
  · exact hinv₁
  · exact hfinal heffects hinv₁ hlast

/-- The invariant rule for the machine. -/
theorem reach_invariant {ok : State → Input → Prop} (Inv : State → Prop)
    (hinit : Inv State.init)
    (heffect : ∀ {s₀ s s' : State} {i : Input}, ok s₀ i → Inv s₀ →
      Relation.ReflTransGen (Effect s₀ i) s₀ s → Inv s → Effect s₀ i s s' → Inv s')
    (hfinal : ∀ {s₀ s s' : State} {i : Input}, ok s₀ i → Inv s₀ →
      Relation.ReflTransGen (Effect s₀ i) s₀ s → Inv s → Final s₀ i s s' → Inv s')
    {s : State} (h : machine.Reach ok s) : Inv s := by
  refine h.invariant hinit ?_
  intro s₀ i s' _ hinv hok hs
  exact step_invariant Inv hinv (heffect hok hinv) (hfinal hok hinv) hs

end Msgbox
