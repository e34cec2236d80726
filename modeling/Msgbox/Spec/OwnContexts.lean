import Msgbox.Spec.Contexts

/-!
# A context for each remote

To the callback it looks as if every remote of a listening udp conn had a `conn_context` of its own:
the first event finds the conn's initial one, and every later event what the callback for the event
before it left. This is so as long as nothing makes the conn's one field show through: a new remote
that is heard while the field has the context of another one, or a `msg_connection_closed`, for
which nothing is restored, behind the callback for another remote.

## Key results

- `noteCallbacks`: what the last callback for each remote left
- `keepsContexts`: the steps at which the conn's field does not show through
- `Own`, `own_step`: the contexts that wait in the statuses and in the conn
- `own_contexts`: what every callback for a remote finds
- `own_contexts_shown`: a remote whose first event finds the context of another one
-/

namespace Msgbox

open State

/-! ## What is noted -/

/-- What the last callback for each remote left in `conn_context`, and the remote of the conn's last
    callback, if the field was not written since. -/
structure ContextNote where
  left : Address → Ptr := fun _ => null
  last : Option Address := none

/-- A callback leaves its context when it returns. -/
def noteCallbacks (c : ConnId) (n : ContextNote) (s : State) : Input → ContextNote
  | .deliver _ =>
    if s.phase.saved.head?.any fun p => p.conn = c then { n with last := none } else n
  | .ret =>
    match s.stack with
    | f :: _ =>
      if f.call.conn = c then
        { left := fun a => if f.call.remote = some a then (s.conn c).connContext else n.left a
          last := f.call.remote }
      else n
    | [] => n
  | .app (.setConnContext c' _) => if c' = c then { n with last := none } else n
  | _ => n

/-- The step serves the contexts of the remotes. A sender without an entry is heard only while the
    conn has its initial context; `msg_disconnect` is called for a remote only when no call with
    data waits for it; and when the call for a closed remote is made, the last callback of the conn
    was for the same remote. -/
def keepsContexts (c : ConnId) (initial : Ptr) (n : ContextNote) (s : State) (i : Input) :
    Bool :=
  servesContexts c s i && match i with
    | .read r => i.subject s ≠ some c || (s.takenDatagram c r).all fun d =>
        (s.connStatus.lookup ⟨d.ip, d.port, .udp⟩).isSome || (s.conn c).connContext = initial
    | .app (.disconnect c' _) => c' ≠ c || s.pending.all fun p =>
        p.conn ≠ c || p.data.isNone || p.remote ≠ some (s.conn c).remoteAddress
    | .deliver _ => (i.delivers s).all fun p =>
        p.conn ≠ c || p.data.isSome || p.remote.isNone || p.remote = n.last
    | _ => true

/-! ## The calls that wait -/

/-- The calls for the conn that wait. -/
def State.callsOf (s : State) (c : ConnId) : List PendingCall :=
  s.pending.filter fun p => p.conn = c

/-- Those for one remote of the conn. -/
def State.callsFor (s : State) (c : ConnId) (a : Address) : List PendingCall :=
  (s.callsOf c).filter fun p => p.remote = some a

/-- The call tells that the remote was closed. -/
def PendingCall.Ends (p : PendingCall) : Prop := p.data = none ∧ p.event = .connectionClosed

/-- The call carries data, and is not the first one for its remote. -/
def PendingCall.GoesOn (p : PendingCall) : Prop :=
  p.data.isSome = true ∧ p.event ≠ .connectionReady

/-- A callback for a call with data of the remote is running. -/
def Running (c : ConnId) (s : State) (a : Address) : Prop :=
  ∃ f ∈ s.stack, f.call.conn = c ∧ f.call.remote = some a ∧ f.call.data.isSome = true

/-- The calls have the first one for a remote, perhaps behind those that end an earlier time, and
    those that go on behind it. -/
inductive Begins : List PendingCall → Prop
  | first {p : PendingCall} {later : List PendingCall} (hready : p.event = .connectionReady)
      (hdata : p.data.isSome = true) (hlater : ∀ q ∈ later, q.GoesOn) : Begins (p :: later)
  | ends {p : PendingCall} {later : List PendingCall} (hends : p.Ends) (hlater : Begins later) :
      Begins (p :: later)

/-- The calls that wait for a remote with an entry, and the context that its status has: its first
    call waits, or that call was made. -/
inductive Waiting (c : ConnId) (initial : Ptr) (s : State) (a : Address) (stored left : Ptr) : Prop
  | fresh (hcalls : Begins (s.callsFor c a)) (hstored : stored = initial)
      (hrunning : ¬ Running c s a)
  | known (hcalls : ∀ q ∈ s.callsFor c a, q.GoesOn)
      (hframes : ∀ f ∈ s.stack, f.call.conn = c → f.call.remote = some a →
        f.call.data.isSome = true)
      (hstored : Running c s a ∨ stored = left)

/-- Each remote with an entry has its own context there, and the conn has that of the last one. -/
structure Own (c : ConnId) (initial : Ptr) (n : ContextNote) (stored : Address → Ptr) (s : State) :
    Prop where
  keeping : Keeping c stored s
  gone : ∀ a, s.connStatus.lookup a = none → ∀ p ∈ s.callsFor c a, p.Ends
  known : ∀ a, heard s.trace c a = true → s.connStatus.lookup a ≠ none →
    Waiting c initial s a (stored a) (n.left a)
  last : ∀ a, n.last = some a → (s.conn c).connContext = n.left a

variable {s s' : State} {i : Input} {c : ConnId} {p : PendingCall} {a b : Address}
  {n : ContextNote} {stored : Address → Ptr} {initial : Ptr}

/-- Behind what ends an earlier time a remote may begin. -/
private theorem Begins.of_ends {calls later : List PendingCall} (hends : ∀ q ∈ calls, q.Ends)
    (hlater : Begins later) : Begins (calls ++ later) := by
  induction calls with
  | nil => exact hlater
  | cons q calls ih =>
    refine .ends (hends q List.mem_cons_self) (ih fun q' hq' => ?_)
    exact hends q' (List.mem_cons_of_mem q hq')

/-- What goes on comes behind the first call. -/
private theorem Begins.append {calls : List PendingCall} (h : Begins calls) (hp : p.GoesOn) :
    Begins (calls ++ [p]) := by
  induction h with
  | first hready hdata hlater =>
    refine .first hready hdata fun q hq => ?_
    rcases List.mem_append.mp hq with hq | hq
    · exact hlater q hq
    · exact List.mem_singleton.mp hq ▸ hp
  | ends hends _ ih => exact .ends hends ih

/-- The first call has data. -/
private theorem Begins.exists_data {calls : List PendingCall} (h : Begins calls) :
    ∃ q ∈ calls, q.data.isSome = true := by
  induction h with
  | @first p later _ hdata _ => exact ⟨p, List.mem_cons_self, hdata⟩
  | ends _ _ ih =>
    obtain ⟨q, hq, hdata⟩ := ih
    exact ⟨q, List.mem_cons_of_mem _ hq, hdata⟩

/-- No callback runs at all. -/
private theorem not_running (h : s.stack = []) : ¬ Running c s a := by
  rintro ⟨f, hf, -⟩
  rw [h] at hf
  exact List.not_mem_nil hf

/-- The calls of a conn are in what tells of it. -/
private theorem calls_record (t : List Obs) (c : ConnId) :
    ((queuedCalls t).filter fun p => p.conn = c) = queuedCalls (t.filter (Obs.tells c)) ∧
      ((calledCalls t).filter fun p => p.conn = c) = calledCalls (t.filter (Obs.tells c)) := by
  induction t with
  | nil => exact ⟨rfl, rfl⟩
  | cons o t ih =>
    -- A call tells of its own conn, and of no other one.
    by_cases ho : o.tells c = true
    · rw [record_told ho]
      cases o with
      | queued p =>
        have hp : p.conn = c := of_decide_eq_true ho
        rw [queuedCalls_queued, queuedCalls_queued, calledCalls_cons rfl, calledCalls_cons rfl,
          List.filter_append, ih.1]
        exact ⟨by simp [hp], ih.2⟩
      | called k p =>
        have hp : p.conn = c := of_decide_eq_true ho
        rw [calledCalls_called, calledCalls_called, queuedCalls_cons rfl, queuedCalls_cons rfl,
          List.filter_append, ih.2]
        exact ⟨ih.1, by simp [hp]⟩
      | _ =>
        rw [queuedCalls_cons rfl, queuedCalls_cons rfl, calledCalls_cons rfl, calledCalls_cons rfl]
        exact ih
    · rw [Bool.not_eq_true] at ho
      rw [record_cons ho]
      cases o with
      | queued p =>
        have hp : p.conn ≠ c := of_decide_eq_false ho
        rw [queuedCalls_queued, calledCalls_cons rfl, List.filter_append, ih.1]
        exact ⟨by simp [hp], ih.2⟩
      | called k p =>
        have hp : p.conn ≠ c := of_decide_eq_false ho
        rw [calledCalls_called, queuedCalls_cons rfl, List.filter_append, ih.2]
        exact ⟨ih.1, by simp [hp]⟩
      | _ =>
        rw [queuedCalls_cons rfl, calledCalls_cons rfl]
        exact ih

/-- What is recorded in a step decides which calls of the conn wait after it. -/
private theorem callsOf_record (horder : InOrder s) (horder' : InOrder s') (new : List Obs)
    (hrecord : s'.trace.filter (Obs.tells c) = new ++ s.trace.filter (Obs.tells c)) :
    s.callsOf c ++ queuedCalls new = calledCalls new ++ s'.callsOf c := by
  -- Before and after, what was queued is what was made, followed by what waits.
  have hold := congrArg (List.filter fun p : PendingCall => p.conn = c) horder.order
  have hnew := congrArg (List.filter fun p : PendingCall => p.conn = c) horder'.order
  rw [List.filter_append, (calls_record _ c).1, (calls_record _ c).2] at hold hnew
  rw [hrecord] at hnew
  have hqueued : ∀ t : List Obs, queuedCalls (new ++ t) = queuedCalls t ++ queuedCalls new := by
    intro t
    simp [queuedCalls]
  have hcalled : ∀ t : List Obs, calledCalls (new ++ t) = calledCalls t ++ calledCalls new := by
    intro t
    simp [calledCalls]
  rw [hqueued, hcalled, hold, List.append_assoc, List.append_assoc] at hnew
  exact List.append_cancel_left hnew

/-- A waiting call for a remote was queued for it. -/
private theorem mem_callsFor (horder : InOrder s) (hp : p ∈ s.callsFor c a) :
    Obs.queued p ∈ s.trace ∧ p.conn = c ∧ p.remote = some a := by
  obtain ⟨hp, hremote⟩ := List.mem_filter.mp hp
  obtain ⟨hp, hconn⟩ := List.mem_filter.mp hp
  refine ⟨?_, by simpa using hconn, by simpa using hremote⟩
  rw [← mem_queuedCalls, horder.order]
  exact List.mem_append_right _ hp

/-- The calls for a remote are among those of the conn. -/
private theorem callsFor_congr (h : s'.callsOf c = s.callsOf c) (a : Address) :
    s'.callsFor c a = s.callsFor c a := by
  rw [callsFor, callsFor, h]

/-- Calls that are queued for a remote come behind those that wait for it. -/
private theorem callsFor_append {calls : List PendingCall}
    (h : s'.callsOf c = s.callsOf c ++ calls) (a : Address) :
    s'.callsFor c a = s.callsFor c a ++ calls.filter fun p => p.remote = some a := by
  rw [callsFor, h, List.filter_append]
  rfl

/-- Calls and callbacks stay as they are. -/
private theorem Waiting.same {v w : Ptr} (h : Waiting c initial s a v w)
    (hcalls : s'.callsFor c a = s.callsFor c a)
    (hstack : ∀ f, f.call.conn = c → (f ∈ s'.stack ↔ f ∈ s.stack)) :
    Waiting c initial s' a v w := by
  have hrunning : Running c s' a ↔ Running c s a := by
    constructor
    · rintro ⟨f, hf, hconn, hfor⟩
      exact ⟨f, (hstack f hconn).mp hf, hconn, hfor⟩
    · rintro ⟨f, hf, hconn, hfor⟩
      exact ⟨f, (hstack f hconn).mpr hf, hconn, hfor⟩
  cases h with
  | fresh hold hstored hnot =>
    exact .fresh (hcalls ▸ hold) hstored (hrunning.not.mpr hnot)
  | known hold hframes hstored =>
    refine .known (hcalls ▸ hold) (fun f hf hconn => ?_) (hstored.imp_left hrunning.mpr)
    exact hframes f ((hstack f hconn).mp hf) hconn

/-! ## One step -/

/-- Only a callback that returns leaves something. -/
private theorem noteCallbacks_left (hret : i ≠ .ret) :
    (noteCallbacks c n s i).left = n.left := by
  unfold noteCallbacks
  split
  · split <;> rfl
  · exact absurd rfl hret
  · split <;> rfl
  · rfl

/-- The conn keeps the context of its last callback until the next one, or until it is written. -/
private theorem noteCallbacks_last (hret : i ≠ .ret)
    (hlast : (noteCallbacks c n s i).last = some a) :
    n.last = some a ∧ ∀ v, i ≠ .app (.setConnContext c v) := by
  unfold noteCallbacks at hlast
  split at hlast
  · split at hlast
    · exact absurd hlast.symm (Option.some_ne_none a)
    · exact ⟨hlast, fun _ => Input.noConfusion⟩
  · exact absurd rfl hret
  · split at hlast
    · exact absurd hlast.symm (Option.some_ne_none a)
    · rename_i hne
      refine ⟨hlast, fun v heq => hne ?_⟩
      injection heq with heq
      injection heq
  · rename_i hother
    exact ⟨hlast, fun v => hother c v⟩

/-- What is aloof from the conn leaves its remotes their contexts. -/
private theorem Own.aloof (h : Own c initial n stored s) (horder : InOrder s) (horder' : InOrder s')
    (hkeeping : Keeping c (noteContext c stored s i) s') (haloof : Aloof c s i s s')
    (hret : i ≠ .ret) (hstack : ∀ f, f.call.conn = c → (f ∈ s'.stack ↔ f ∈ s.stack)) :
    Own c initial (noteCallbacks c n s i) (noteContext c stored s i) s' where
  keeping := hkeeping
  gone a ha p hp := by
    have hcalls := callsOf_record horder horder' [] haloof.record
    have hsame := callsFor_congr ((List.append_nil _).symm.trans hcalls).symm a
    obtain ⟨hqueued, hconn, hremote⟩ := mem_callsFor horder' hp
    -- A remote for which a call waits was heard, so its entry is as it was.
    have hheard := hkeeping.remotes p hqueued hconn a hremote
    rw [haloof.heard] at hheard
    rw [haloof.lookup a hheard] at ha
    exact h.gone a ha p (hsame ▸ hp)
  known a hheard hentry := by
    have hcalls := callsOf_record horder horder' [] haloof.record
    have hsame := callsFor_congr ((List.append_nil _).symm.trans hcalls).symm a
    rw [haloof.heard] at hheard
    rw [haloof.lookup a hheard] at hentry
    obtain ⟨sid, hsid⟩ := Option.ne_none_iff_exists'.mp hentry
    rw [noteContext_known hsid hret, noteCallbacks_left hret]
    exact (h.known a hheard hentry).same hsame hstack
  last a hlast := by
    obtain ⟨hold, hset⟩ := noteCallbacks_last hret hlast
    rw [haloof.context hset, noteCallbacks_left hret]
    exact h.last a hold

/-- The call that is queued for a taken datagram goes on. -/
private theorem goesOn_of_brings {bytes : List UInt8} (hbrings : p.Brings c a bytes) :
    p.GoesOn := by
  obtain ⟨data, hdata, -⟩ := hbrings.data
  refine ⟨by rw [hdata]; rfl, fun hready => ?_⟩
  have hevent := hbrings.event
  rw [hready] at hevent
  cases hk : (decodeHeader bytes).kind <;> rw [hk] at hevent <;> exact absurd hevent (by decide)

/-- A datagram is taken. -/
private theorem Own.hears {r : ReadIn} {bytes : List UInt8} (h : Own c initial n stored s)
    (horder : InOrder s) (horder' : InOrder s')
    (hkeeping : Keeping c (noteContext c stored s (.read r)) s')
    (hinitial : s.connStatus.lookup a = none → (s.conn c).connContext = initial)
    (hknown : heard s.trace c a = true ∨ s.connStatus.lookup a = none)
    (hbrings : p.Brings c a bytes) (hhears : Hears c s s' a bytes p) (hempty : s.stack = [])
    (hstack : s'.stack = s.stack) :
    Own c initial n (noteContext c stored s (.read r)) s' := by
  have hret : (Input.read r) ≠ .ret := Input.noConfusion
  have hgoesOn := goesOn_of_brings hbrings
  -- The calls queued, the one for the message last.
  have hcalls : s'.callsOf c = s.callsOf c ++
      ((if s.connStatus.lookup a = none then [readyCall c a] else []) ++ [p]) := by
    have hnew := callsOf_record horder horder'
      (.queued p :: (greeting c s a ++ [.datagram c a bytes]))
      (by rw [hhears.record]; simp)
    unfold greeting at hnew
    split at hnew
    · rename_i hlookup
      rw [if_pos hlookup]
      exact hnew.symm
    · rename_i hlookup
      rw [if_neg hlookup]
      exact hnew.symm
  have hother : ∀ b, b ≠ a → s'.callsFor c b = s.callsFor c b := by
    intro b hb
    rw [callsFor_append hcalls]
    have hready : (readyCall c a).remote = some a := rfl
    split <;> simp [hready, hbrings.remote, Ne.symm hb]
  have hsame : ∀ b, b ≠ a → heard s'.trace c b = heard s.trace c b := by
    intro b hb
    rw [(hears_record hbrings hhears b).1, decide_eq_false hb, Bool.false_or]
  have hframes : ∀ f, f.call.conn = c → (f ∈ s'.stack ↔ f ∈ s.stack) := by
    intro f _
    rw [hstack]
  refine ⟨hkeeping, fun b hb q hq => ?_, fun b hb hentry => ?_, fun b hlast => ?_⟩
  · -- The sender has an entry now.
    have hba : b ≠ a := by
      rintro rfl
      obtain ⟨sid, hsid, -⟩ := hhears.known
      exact absurd (hsid.symm.trans hb) (Option.some_ne_none sid)
    rw [hhears.lookup b hba] at hb
    exact h.gone b hb q (hother b hba ▸ hq)
  · by_cases hba : b = a
    · subst hba
      have hfor := callsFor_append hcalls b
      by_cases hlookup : s.connStatus.lookup b = none
      -- The remote is new, and its first call comes behind those that end an earlier time.
      · rw [if_pos hlookup] at hfor
        have hready : (readyCall c b).remote = some b := rfl
        have hfor : s'.callsFor c b = s.callsFor c b ++ readyCall c b :: [p] := by
          rw [hfor]
          simp [hready, hbrings.remote]
        have hlater : ∀ q ∈ [p], q.GoesOn := by
          intro q hq
          exact List.mem_singleton.mp hq ▸ hgoesOn
        refine .fresh ?_ ?_ (not_running (hstack.trans hempty))
        · rw [hfor]
          exact .of_ends (h.gone b hlookup) (.first rfl rfl hlater)
        · unfold noteContext
          rw [if_pos hlookup]
          exact hinitial hlookup
      · rw [if_neg hlookup] at hfor
        have hfor : s'.callsFor c b = s.callsFor c b ++ [p] := by
          rw [hfor]
          simp [hbrings.remote]
        obtain ⟨sid, hsid⟩ := Option.ne_none_iff_exists'.mp hlookup
        rw [noteContext_known hsid hret]
        cases h.known b (hknown.resolve_right hlookup) hlookup with
        | fresh hold hstored _ =>
          refine .fresh ?_ hstored (not_running (hstack.trans hempty))
          rw [hfor]
          exact hold.append hgoesOn
        | known hold hrunning hstored =>
          refine .known (fun q hq => ?_) (fun f hf => ?_)
            (.inr (hstored.resolve_left (not_running hempty)))
          · rw [hfor] at hq
            rcases List.mem_append.mp hq with hq | hq
            · exact hold q hq
            · exact List.mem_singleton.mp hq ▸ hgoesOn
          · rw [hstack] at hf
            exact hrunning f hf
    -- The other remotes are untouched.
    · rw [hsame b hba] at hb
      rw [hhears.lookup b hba] at hentry
      obtain ⟨sid, hsid⟩ := Option.ne_none_iff_exists'.mp hentry
      rw [noteContext_known hsid hret]
      exact (h.known b hb hentry).same (hother b hba) hframes
  · rw [hhears.context]
    exact h.last b hlast

/-- The remote of the conn is dropped while no call with data waits for it. -/
private theorem Own.parts (h : Own c initial n stored s) (horder : InOrder s) (horder' : InOrder s')
    (hkeeping : Keeping c (noteContext c stored s i) s') (hret : i ≠ .ret)
    (hserving : serving s c (s.conn c).remoteAddress = true)
    (hwaits : ∀ q ∈ s.callsFor c (s.conn c).remoteAddress, q.data = none)
    (hparts : Parts c s s' p) (hstack : s'.stack = s.stack) :
    Own c initial n (noteContext c stored s i) s' := by
  have hcalls : s'.callsOf c = s.callsOf c ++ [p] :=
    (callsOf_record horder horder' [.queued p, .disconnected c (s.conn c).remoteAddress]
      hparts.record).symm
  have hends : p.Ends ∧ p.remote = some (s.conn c).remoteAddress := by
    rw [hparts.call]
    exact ⟨⟨rfl, rfl⟩, rfl⟩
  have hother : ∀ b, b ≠ (s.conn c).remoteAddress → s'.callsFor c b = s.callsFor c b := by
    intro b hb
    rw [callsFor_append hcalls]
    simp [hends.2, Ne.symm hb]
  have hlookup : ∀ b, b ≠ (s.conn c).remoteAddress →
      s'.connStatus.lookup b = s.connStatus.lookup b := by
    intro b hb
    rw [hparts.lookup, AList.lookup_erase_ne hb]
  obtain ⟨hheard, hsome⟩ := Bool.and_eq_true_iff.mp hserving
  -- All that would wait for the remote has data, so nothing does.
  have hnothing : s.callsFor c (s.conn c).remoteAddress = [] := by
    apply List.eq_nil_iff_forall_not_mem.mpr
    intro q hq
    cases h.known _ hheard (Option.isSome_iff_ne_none.mp hsome) with
    | fresh hold _ _ =>
      obtain ⟨r, hr, hdata⟩ := hold.exists_data
      rw [hwaits r hr] at hdata
      exact Bool.noConfusion hdata
    | known hold _ _ =>
      have hdata := (hold q hq).1
      rw [hwaits q hq] at hdata
      exact Bool.noConfusion hdata
  have hframes : ∀ f, f.call.conn = c → (f ∈ s'.stack ↔ f ∈ s.stack) := by
    intro f _
    rw [hstack]
  refine ⟨hkeeping, fun b hb q hq => ?_, fun b hb hentry => ?_, fun b hlast => ?_⟩
  · by_cases hba : b = (s.conn c).remoteAddress
    -- Only the call that ends the remote's time waits for it.
    · rw [callsFor_append hcalls, hba, hnothing, List.nil_append] at hq
      exact List.mem_singleton.mp (List.mem_filter.mp hq).1 ▸ hends.1
    · rw [hlookup b hba] at hb
      exact h.gone b hb q (hother b hba ▸ hq)
  · -- The remote that parted has no entry, and the others keep theirs.
    have hba : b ≠ (s.conn c).remoteAddress := by
      rintro rfl
      rw [hparts.lookup, AList.lookup_erase] at hentry
      exact hentry rfl
    have hold : heard s.trace c b = true := (hparts.heard b).symm.trans hb
    rw [hlookup b hba] at hentry
    obtain ⟨sid, hsid⟩ := Option.ne_none_iff_exists'.mp hentry
    rw [noteContext_known hsid hret]
    exact (h.known b hold hentry).same (hother b hba) hframes
  · rw [hparts.conn]
    exact h.last b hlast

/-- The callback for a remote begins. -/
private theorem Own.calls {rest : List PendingCall} {junk : Junk} (h : Own c initial n stored s)
    (horder : InOrder s) (horder' : InOrder (s.makeCall p rest junk))
    (hkeeping : Keeping c (noteContext c stored s (.deliver junk)) (s.makeCall p rest junk))
    (hconn : p.conn = c) (hempty : s.stack = []) :
    Own c initial { n with last := none } (noteContext c stored s (.deliver junk))
      (s.makeCall p rest junk) := by
  have hret : (Input.deliver junk) ≠ .ret := Input.noConfusion
  have hcalls : s.callsOf c = p :: (s.makeCall p rest junk).callsOf c := by
    have hrecord : (s.makeCall p rest junk).trace.filter (Obs.tells c) =
        [.called (s.loaded p junk) p] ++ s.trace.filter (Obs.tells c) := by
      rw [makeCall_eq]
      exact record_told (o := .called (s.loaded p junk) p) (decide_eq_true hconn) _
    have hnew := callsOf_record horder horder' _ hrecord
    exact (List.append_nil _).symm.trans hnew
  have hframes : ∀ f ∈ (s.makeCall p rest junk).stack, f.call = p := by
    intro f hf
    rw [makeCall_eq, hempty] at hf
    rw [List.mem_singleton.mp hf]
  have hmine : ∀ b, p.remote = some b →
      s.callsFor c b = p :: (s.makeCall p rest junk).callsFor c b := by
    intro b hb
    rw [callsFor, hcalls, List.filter_cons_of_pos (by simpa using hb)]
    rfl
  have hother : ∀ b, p.remote ≠ some b →
      (s.makeCall p rest junk).callsFor c b = s.callsFor c b := by
    intro b hb
    rw [callsFor, callsFor, hcalls, List.filter_cons_of_neg (by simpa using hb)]
  have htable : (s.makeCall p rest junk).connStatus = s.connStatus := by rw [makeCall_eq]
  refine ⟨hkeeping, fun b hb q hq => ?_, fun b hb hentry => ?_,
    fun b hlast => absurd hlast.symm (Option.some_ne_none b)⟩
  · rw [htable] at hb
    apply h.gone b hb q
    by_cases hfor : p.remote = some b
    · rw [hmine b hfor]
      exact List.mem_cons_of_mem p hq
    · rw [← hother b hfor]
      exact hq
  · rw [htable] at hentry
    have hold : heard s.trace c b = true := by
      rw [makeCall_eq] at hb
      simpa [heard] using hb
    obtain ⟨sid, hsid⟩ := Option.ne_none_iff_exists'.mp hentry
    rw [noteContext_known hsid hret]
    have hknown := h.known b hold hentry
    by_cases hfor : p.remote = some b
    · have hcons := hmine b hfor
      cases hdata : p.data with
      -- The call that ends an earlier time of the remote, whose first call still waits.
      | none =>
        have hnot : ¬ Running c (s.makeCall p rest junk) b := by
          rintro ⟨f, hf, -, -, hsome⟩
          rw [hframes f hf, hdata] at hsome
          exact Bool.noConfusion hsome
        cases hknown with
        | fresh hfresh hstored _ =>
          rw [hcons] at hfresh
          cases hfresh with
          | first _ hsome _ =>
            rw [hdata] at hsome
            exact Bool.noConfusion hsome
          | ends _ hlater => exact .fresh hlater hstored hnot
        | known hgoesOn _ _ =>
          have hsome := (hgoesOn p (by rw [hcons]; exact List.mem_cons_self)).1
          rw [hdata] at hsome
          exact Bool.noConfusion hsome
      -- A call with data: while its callback runs, the status is behind the conn.
      | some data =>
        have hrunning : Running c (s.makeCall p rest junk) b := by
          refine ⟨⟨p, (s.restoreConn p junk).2, rest⟩, ?_, hconn, hfor, by rw [hdata]; rfl⟩
          rw [makeCall_eq]
          exact List.mem_cons_self
        refine .known (fun q hq => ?_) (fun f hf _ _ => ?_) (.inl hrunning)
        · cases hknown with
          | fresh hfresh _ _ =>
            rw [hcons] at hfresh
            cases hfresh with
            | first _ _ hlater => exact hlater q hq
            | ends hends _ =>
              exact absurd (hdata.symm.trans hends.1) (Option.some_ne_none data)
          | known hgoesOn _ _ =>
            exact hgoesOn q (by rw [hcons]; exact List.mem_cons_of_mem p hq)
        · rw [hframes f hf, hdata]
          rfl
    -- The callback is for another remote.
    · have hnot : ¬ Running c (s.makeCall p rest junk) b := by
        rintro ⟨f, hf, -, hb', -⟩
        rw [hframes f hf] at hb'
        exact hfor hb'
      cases hknown with
      | fresh hfresh hstored _ => exact .fresh (hother b hfor ▸ hfresh) hstored hnot
      | known hgoesOn _ hstored =>
        refine .known (hother b hfor ▸ hgoesOn) (fun f hf _ hb' => ?_)
          (.inr (hstored.resolve_left (not_running hempty)))
        rw [hframes f hf] at hb'
        exact absurd hb' hfor

/-- What a callback that returns leaves for its remote. -/
private theorem noteCallbacks_ret {f : Frame} {stack : List Frame} (hstack : s.stack = f :: stack)
    (a : Address) :
    (noteCallbacks c n s .ret).left a =
      if f.call.conn = c ∧ f.call.remote = some a then (s.conn c).connContext else n.left a := by
  unfold noteCallbacks
  simp only [hstack]
  by_cases hconn : f.call.conn = c <;> simp [hconn]

/-- A status gets what its remote's callback leaves if the call had data. -/
private theorem noteContext_ret {f : Frame} {stack : List Frame} {sid : StatusId}
    (hstack : s.stack = f :: stack) (hsid : s.connStatus.lookup a = some sid) :
    noteContext c stored s .ret a =
      if f.call.conn = c ∧ f.call.data.isSome = true ∧ f.call.remote = some a then
        (s.conn c).connContext
      else stored a := by
  unfold noteContext
  rw [if_neg (by rw [hsid]; exact Option.some_ne_none sid)]
  simp [hstack, and_assoc]

/-- A callback returns. -/
private theorem Own.returned {f : Frame} (h : Own c initial n stored s) (horder : InOrder s)
    (horder' : InOrder (s.finishCall f []))
    (hkeeping : Keeping c (noteContext c stored s .ret) (s.finishCall f []))
    (hstack : s.stack = [f]) :
    Own c initial (noteCallbacks c n s .ret) (noteContext c stored s .ret) (s.finishCall f []) := by
  have hsame : ∀ a, (s.finishCall f []).callsFor c a = s.callsFor c a := by
    have hrecord : (s.finishCall f []).trace.filter (Obs.tells c) =
        [] ++ s.trace.filter (Obs.tells c) := by
      rw [finishCall_eq]
      rfl
    have hcalls := callsOf_record horder horder' [] hrecord
    exact callsFor_congr ((List.append_nil _).symm.trans hcalls).symm
  have htable : (s.finishCall f []).connStatus = s.connStatus := by rw [finishCall_eq]
  have hconns : (s.finishCall f []).conn = s.conn := by rw [finishCall_eq]
  have htrace : (s.finishCall f []).trace = s.trace := by rw [finishCall_eq]
  have hidle : (s.finishCall f []).stack = [] := by rw [finishCall_eq]
  refine ⟨hkeeping, fun b hb q hq => ?_, fun b hb hentry => ?_, fun b hlast => ?_⟩
  · rw [htable] at hb
    exact h.gone b hb q (hsame b ▸ hq)
  · rw [htable] at hentry
    rw [htrace] at hb
    obtain ⟨sid, hsid⟩ := Option.ne_none_iff_exists'.mp hentry
    rw [noteContext_ret hstack hsid, noteCallbacks_ret hstack]
    cases h.known b hb hentry with
    -- No callback with data ran for the remote, whose first call still waits.
    | fresh hold hstored hnot =>
      refine .fresh (hsame b ▸ hold) ?_ (not_running hidle)
      rw [if_neg]
      · exact hstored
      · rintro ⟨hconn, hdata, hfor⟩
        exact hnot ⟨f, hstack ▸ List.mem_cons_self, hconn, hfor, hdata⟩
    | known hold hframes hstored =>
      refine .known (hsame b ▸ hold) (fun f' hf' => ?_) (.inr ?_)
      · rw [hidle] at hf'
        exact absurd hf' List.not_mem_nil
      by_cases hmine : f.call.conn = c ∧ f.call.remote = some b
      -- The remote's callback has data, so the status gets what it left.
      · have hdata := hframes f (hstack ▸ List.mem_cons_self) hmine.1 hmine.2
        rw [if_pos ⟨hmine.1, hdata, hmine.2⟩, if_pos hmine]
      · rw [if_neg hmine, if_neg fun hfor => hmine ⟨hfor.1, hfor.2.2⟩]
        refine hstored.resolve_left ?_
        rintro ⟨f', hf', hconn, hfor, -⟩
        rw [hstack] at hf'
        exact hmine (List.mem_singleton.mp hf' ▸ ⟨hconn, hfor⟩)
  -- The conn still has what its last callback left.
  · rw [hconns, noteCallbacks_ret hstack]
    by_cases hconn : f.call.conn = c
    · have hfor : f.call.remote = some b := by
        simpa [noteCallbacks, hstack, hconn] using hlast
      rw [if_pos ⟨hconn, hfor⟩]
    · rw [if_neg fun hfor => hconn hfor.1]
      exact h.last b (by simpa [noteCallbacks, hstack, hconn] using hlast)

/-- A step at which the conn's field does not show through keeps the contexts of the remotes. -/
private theorem own_step (hok : keepsContexts c initial n s i = true) (hs : Sound s)
    (horder : InOrder s) (horder' : InOrder s') (hserves : Serves c s)
    (h : Own c initial n stored s) (hstep : step s i = some s') :
    Own c initial (noteCallbacks c n s i) (noteContext c stored s i) s' := by
  obtain ⟨hcontexts, hown⟩ := Bool.and_eq_true_iff.mp hok
  have hkeeping := keeping_step hcontexts hs horder hserves h.keeping hstep
  have hturn := turn_step (Bool.and_eq_true_iff.mp hcontexts).1 hs hserves hstep
  cases i with
  | ret =>
    obtain ⟨f, stack, -, hstack, -, rfl⟩ := step_ret hstep
    -- No callback runs inside another one.
    obtain rfl : stack = [] := by
      have hdepth := horder.depth
      rw [hstack] at hdepth
      exact List.eq_nil_of_length_eq_zero (by simpa using hdepth)
    exact h.returned horder horder' hkeeping hstack
  | deliver junk =>
    have hret : Input.deliver junk ≠ .ret := Input.noConfusion
    rcases step_deliver hstep with ⟨hphase, heq⟩ | ⟨p, rest, hphase, -, heq⟩
    · cases hturn with
      | aloof haloof =>
        refine h.aloof horder horder' hkeeping haloof hret fun f _ => ?_
        rw [heq]
      | hears hinput => exact Input.noConfusion hinput
      | parts hinput => exact Input.noConfusion hinput
      | calls _ _ hphase' => exact absurd (hphase.symm.trans hphase') (by simp)
    · by_cases hconn : p.conn = c
      · have hempty := horder.idle hphase
        have hnote : noteCallbacks c n s (.deliver junk) = { n with last := none } := by
          simp [noteCallbacks, hphase, Phase.saved, hconn]
        subst heq
        rw [hnote]
        exact h.calls horder horder' hkeeping hconn hempty
      -- The callback for another conn is not a frame of this one.
      · cases hturn with
        | aloof haloof =>
          refine h.aloof horder horder' hkeeping haloof hret fun f hf => ?_
          rw [heq, makeCall_eq, List.mem_cons]
          refine ⟨fun hmem => hmem.resolve_left ?_, .inr⟩
          rintro rfl
          exact hconn hf
        | hears hinput => exact Input.noConfusion hinput
        | parts hinput => exact Input.noConfusion hinput
        | calls _ hconn' hphase' =>
          obtain ⟨rfl, -⟩ := List.cons.inj (Phase.delivering.inj (hphase.symm.trans hphase'))
          exact absurd hconn' hconn
  | read r =>
    have hret : Input.read r ≠ .ret := Input.noConfusion
    have hstack := step_stack hstep (fun _ => Input.noConfusion) hret
    cases hturn with
    | aloof haloof =>
      exact h.aloof horder horder' hkeeping haloof hret fun f _ => by rw [hstack]
    | @hears r' a bytes p hinput hsubject htaken _ hknown hbrings hhears =>
      obtain rfl := Input.read.inj hinput
      have hempty := idle_of_subject horder hsubject
      refine h.hears horder horder' hkeeping (fun hlookup => ?_) hknown hbrings hhears hempty hstack
      -- The sender of the datagram has no entry, so the conn has its initial context.
      obtain ⟨d, hd, hsender⟩ := Option.map_eq_some_iff.mp htaken
      obtain ⟨rfl, -⟩ := Prod.mk.inj hsender
      simpa [hsubject, hd, hlookup] using hown
    | parts hinput => exact Input.noConfusion hinput
    | calls hinput => exact Input.noConfusion hinput
  | app call =>
    have hret : Input.app call ≠ .ret := Input.noConfusion
    have hstack := step_stack hstep (fun _ => Input.noConfusion) hret
    cases hturn with
    | aloof haloof =>
      exact h.aloof horder horder' hkeeping haloof hret fun f _ => by rw [hstack]
    | hears hinput => exact Input.noConfusion hinput
    | parts hinput hserving hparts =>
      obtain rfl := Input.app.inj hinput
      refine h.parts horder horder' hkeeping hret hserving (fun q hq => ?_) hparts hstack
      -- Of the calls that wait for the remote, none has data.
      obtain ⟨hq, hremote⟩ := List.mem_filter.mp hq
      obtain ⟨hq, hconn⟩ := List.mem_filter.mp hq
      have hwaits : ∀ p ∈ s.pending,
          (p.conn ≠ c ∨ p.data = none) ∨ p.remote ≠ some (s.conn c).remoteAddress := by
        simpa using hown
      have hclear := (hwaits q hq).resolve_right (not_not.mpr (of_decide_eq_true hremote))
      exact hclear.resolve_left (not_not.mpr (of_decide_eq_true hconn))
    | calls hinput => exact Input.noConfusion hinput
  | _ =>
    have hstack := step_stack hstep (fun _ => Input.noConfusion) Input.noConfusion
    cases hturn with
    | aloof haloof =>
      exact h.aloof horder horder' hkeeping haloof Input.noConfusion fun f _ => by rw [hstack]
    | hears hinput => exact Input.noConfusion hinput
    | parts hinput => exact Input.noConfusion hinput
    | calls hinput => exact Input.noConfusion hinput

/-! ## Runs -/

/-- Nothing was called yet. -/
private theorem Unheard.own (h : Unheard c s) (horder : InOrder s)
    (hnew : ∀ f ∈ s.stack, f.call.conn ≠ c) : Own c initial {} stored s where
  keeping := h.keeping hnew
  gone a _ p hp := by
    obtain ⟨hqueued, hconn, hremote⟩ := mem_callsFor horder hp
    have hkeeping : Keeping c stored s := h.keeping hnew
    have hheard := hkeeping.remotes p hqueued hconn a hremote
    rw [← heard_filter, h.record] at hheard
    exact Bool.noConfusion hheard
  known a hheard := by
    rw [← heard_filter, h.record] at hheard
    exact Bool.noConfusion hheard
  last a hlast := absurd hlast.symm (Option.some_ne_none a)

/-- Along every path at whose steps the conn's field does not show through, the remotes have their
    own contexts. -/
private theorem path_own {s₁ s₂ : State}
    (h : machine.Reach (fun s i => plain s i = true) s₁) (hunheard : Unheard c s₁)
    (hnew : ∀ f ∈ s₁.stack, f.call.conn ≠ c)
    (hpath : (machine.noting (noteCallbacks c) {}).Path
      (fun x i => keepsContexts c initial x.2 x.1 i = true) (s₁, {}) (s₂, n)) :
    machine.Reach (fun s i => plain s i = true) s₂ ∧ Serves c s₂ ∧
      ∃ stored, Own c initial n stored s₂ := by
  have hserving : ∀ (x : State × ContextNote) i, keepsContexts c initial x.2 x.1 i = true →
      servesRemotes c x.1 i = true := by
    intro x i hok
    exact (Bool.and_eq_true_iff.mp (Bool.and_eq_true_iff.mp hok).1).1
  refine hpath.noting_keeps (Q := fun x i => keepsContexts c initial x.2 x.1 i = true)
    (fun x i hok => (servesRemotes_base (hserving x i hok)).1)
    (fun n s => Serves c s ∧ ∃ stored, Own c initial n stored s) h
    ⟨hunheard.serves, fun _ => null, hunheard.own (reach_inOrder h) hnew⟩ ?_
  rintro n s i s' hreach ⟨hserves, stored, hown⟩ hok hstep
  have hs := reach_sound hreach
  have hserving := hserving (s, n) i hok
  have horder' := reach_inOrder (hreach.step (servesRemotes_base hserving).1 hstep)
  refine ⟨hserves.turn hs (turn_step hserving hs hserves hstep), noteContext c stored s i, ?_⟩
  exact own_step hok hs (reach_inOrder hreach) horder' hserves hown hstep

/-- The call that is made next is the first one that waits for its remote. -/
private theorem callsFor_next {rest : List PendingCall} (hempty : s.stack = [])
    (hphase : s.phase = .delivering (p :: rest)) (hconn : p.conn = c)
    (hremote : p.remote = some a) :
    ∃ later, s.callsFor c a = p :: later := by
  rw [callsFor, callsOf, pending, hempty, hphase, Phase.saved, List.reverse_nil, List.flatMap_nil,
    List.nil_append, List.cons_append, List.filter_cons_of_pos (by simpa using hconn),
    List.filter_cons_of_pos (by simpa using hremote)]
  exact ⟨_, rfl⟩

/-- What the next callback for a remote finds. -/
private theorem Own.finds {rest : List PendingCall} {junk : Junk} (h : Own c initial n stored s)
    (horder : InOrder s) (hserves : Serves c s)
    (hok : keepsContexts c initial n s (.deliver junk) = true)
    (hphase : s.phase = .delivering (p :: rest)) (hconn : p.conn = c)
    (hremote : p.remote = some a) :
    (s.loaded p junk).connContext =
      if p.event = .connectionReady then initial else n.left a := by
  have hempty := horder.idle hphase
  obtain ⟨later, hnext⟩ := callsFor_next hempty hphase hconn hremote
  have hmem : p ∈ s.callsFor c a := by
    rw [hnext]
    exact List.mem_cons_self
  have hqueued := (mem_callsFor horder hmem).1
  have hheard := h.keeping.remotes p hqueued hconn a hremote
  cases hdata : p.data with
  -- Nothing is restored, and the last callback of the conn was for this remote.
  | none =>
    have hevent : p.event ≠ .connectionReady := by
      have hends : p.Ends → p.event ≠ .connectionReady := by
        intro hends
        rw [hends.2]
        exact Event.noConfusion
      by_cases hlookup : s.connStatus.lookup a = none
      · exact hends (h.gone a hlookup p hmem)
      · cases h.known a hheard hlookup with
        | fresh hfresh _ _ =>
          rw [hnext] at hfresh
          cases hfresh with
          | first _ hsome _ =>
            rw [hdata] at hsome
            exact Bool.noConfusion hsome
          | ends hp _ => exact hends hp
        | known hgoesOn _ _ => exact (hgoesOn p hmem).2
    have hlast : n.last = some a := by
      have hcond := (Bool.and_eq_true_iff.mp hok).2
      have hsame : p.remote = n.last := by
        simpa [Input.delivers, hphase, hconn, hdata, hremote, Phase.saved] using hcond
      exact hsame.symm.trans hremote
    rw [s.loaded_of_no_data p junk (.inl hdata), hconn, h.last a hlast, if_neg hevent]
  -- The status of the remote is restored.
  | some data =>
    have hentry : s.connStatus.lookup a ≠ none := by
      intro hlookup
      exact Option.some_ne_none data (hdata.symm.trans (h.gone a hlookup p hmem).1)
    obtain ⟨sid, hsid⟩ := Option.ne_none_iff_exists'.mp hentry
    have hstored : (s.loaded p junk).connContext = stored a := by
      obtain ⟨hnone, -⟩ | ⟨b, hb, -, -, hcarries⟩ := hserves.told p hqueued hconn
      · exact absurd (hremote.symm.trans hnone) (Option.some_ne_none a)
      · obtain rfl := Option.some.inj (hremote.symm.trans hb)
        have hudp : (s.conn p.conn).protocolType = .udp := hconn ▸ hserves.isUdp
        rw [(restoreConn_context junk hdata hudp (hcarries data hdata)).2 sid hsid]
        exact h.keeping.contexts a sid hheard hsid
    rw [hstored]
    cases h.known a hheard hentry with
    | fresh hfresh hstored _ =>
      rw [hnext] at hfresh
      cases hfresh with
      | first hready _ _ => rw [if_pos hready, hstored]
      | ends hends _ => exact absurd (hdata.symm.trans hends.1) (Option.some_ne_none data)
    | known hgoesOn _ hstored =>
      rw [if_neg (hgoesOn p hmem).2]
      exact hstored.resolve_left (not_running hempty)

/-- For every udp conn that `msg_listen` made, and every run from there in which the conn's one
    field does not show through: the first callback for a remote finds the conn's initial context,
    and every later one what the previous callback for the remote left. The initial context is
    `null` after `msg_listen`, or what the application gives the conn before a remote is heard. -/
theorem own_contexts {s₀ s₁ s₂ s₃ : State} {initial : Ptr} {n : ContextNote} {address : CString}
    {callback : Nat} {o : OpenIn} (h : machine.Reach (fun s i => plain s i = true) s₀)
    (hlisten : step s₀ (.app (.listen address callback o)) = some s₁)
    (hopens : Input.openFails address true o = false)
    (hudp : (parseAddressStr address ⟨0, 0, .other⟩).1.protocolType = .udp)
    (hpath : (machine.noting (noteCallbacks s₀.nextConn) {}).Path
      (fun x i => keepsContexts s₀.nextConn initial x.2 x.1 i = true) (s₁, {}) (s₂, n))
    {p : PendingCall} {rest : List PendingCall} {junk : Junk} {a : Address}
    (hphase : s₂.phase = .delivering (p :: rest)) (hconn : p.conn = s₀.nextConn)
    (hremote : p.remote = some a)
    (hok : keepsContexts s₀.nextConn initial n s₂ (.deliver junk) = true)
    (hcall : step s₂ (.deliver junk) = some s₃) :
    (s₃.conn s₀.nextConn).connContext =
      if p.event = .connectionReady then initial else n.left a := by
  have hreach : machine.Reach (fun s i => plain s i = true) s₁ :=
    h.step (i := .app (.listen address callback o)) rfl hlisten
  have hnew : ∀ f ∈ s₁.stack, f.call.conn ≠ s₀.nextConn := listen_stack h hlisten
  obtain ⟨-, -, rfl⟩ := step_app hlisten
  have hunheard : Unheard s₀.nextConn (s₀.msgListen address callback o) :=
    unheard_listen (reach_recorded h) hopens hudp
  obtain ⟨hreach₂, hserves, stored, hown⟩ := path_own hreach hunheard hnew hpath
  rw [deliver_conn s₂ p rest junk hphase hcall, hconn, Function.update_self]
  exact hown.finds (reach_inOrder hreach₂) hserves hok hphase hconn hremote

/-- The callback for one remote stores 5 and then the one for another remote 9. The next message of
    the first remote finds 5 in place of 9. -/
theorem own_contexts_kept :
    ∃ (s₁ s₂ s₃ : State) (n : ContextNote),
      (machine.noting (noteCallbacks 0) {}).Path
        (fun x i => keepsContexts 0 null x.2 x.1 i = true) (s₁, {}) (s₂, n) ∧
      (s₂.conn 0).connContext = 9 ∧ step s₂ (.deliver {}) = some s₃ ∧
      (s₃.conn 0).connContext = n.left ⟨1, 1, .udp⟩ ∧ n.left ⟨1, 1, .udp⟩ = 5 := by
  let address : CString := ['u', 'd', 'p', ':', '/', '/', '*', ':', '8', '0']
  let other : Datagram := ⟨2, 2, setHeader .oneWay 0 1 ++ [66]⟩
  have hrun : ((step State.init (.app (.listen address 0 { socket := .ok 3 }))).bind fun s₁ =>
      ((machine.noting (noteCallbacks 0) {}).runFrom (fun x i => keepsContexts 0 null x.2 x.1 i)
        (s₁, {})
        [.env (.datagram 3 messageDatagram), .env (.datagram 3 other),
          .runloop (.ready [{ pollin := true }]), .visit none, .read { peek := .upTo 8 },
          .read { peek := .upTo 8 }, .read {}, .endPoll, .timeouts 0, .deliver {}, .ret,
          .deliver {}, .app (.setConnContext 0 5), .ret, .deliver {}, .ret, .deliver {},
          .app (.setConnContext 0 9), .ret, .deliver {}, .ret, .deliver {},
          .env (.datagram 3 messageDatagram), .runloop (.ready [{ pollin := true }]), .visit none,
          .read { peek := .upTo 8 }, .read {}, .endPoll, .timeouts 0]).map fun x =>
        (x.1.phase.saved.head?.map fun p : PendingCall =>
            (p.conn, decide (p.remote = some ⟨1, 1, .udp⟩), decide (p.event = .connectionReady)),
          keepsContexts 0 null x.2 x.1 (.deliver {}), (step x.1 (.deliver {})).isSome,
          (x.1.conn 0).connContext, x.2.left ⟨1, 1, .udp⟩)) =
      some (some (0, true, false), true, true, 9, 5) := by decide +kernel
  obtain ⟨s₁, hlisten, hrun⟩ := Option.bind_eq_some_iff.mp hrun
  obtain ⟨⟨s₂, n⟩, hrun, hview⟩ := Option.map_eq_some_iff.mp hrun
  simp only [Prod.mk.injEq] at hview
  obtain ⟨hhead, hok, hstep, hcontext, hleft⟩ := hview
  obtain ⟨p, hhead, hp⟩ := Option.map_eq_some_iff.mp hhead
  obtain ⟨rest, hphase⟩ := Phase.delivering_of_saved hhead
  simp only [Prod.mk.injEq, decide_eq_true_eq, decide_eq_false_iff_not] at hp
  obtain ⟨hconn, hremote, hevent⟩ := hp
  obtain ⟨s₃, hcall⟩ := Option.isSome_iff_exists.mp hstep
  have hpath : (machine.noting (noteCallbacks 0) {}).Path
      (fun x i => keepsContexts 0 null x.2 x.1 i = true) (s₁, {}) (s₂, n) :=
    Machine.Path.refl.of_run (fun _ _ h => h) hrun
  have hfinds := own_contexts .init hlisten (by decide) (by decide) hpath hphase hconn hremote hok
    hcall
  rw [if_neg hevent] at hfinds
  exact ⟨s₁, s₂, s₃, n, hpath, hcontext, hcall, hfinds, hleft⟩

/-- The callback for one remote stores 5, and then another remote is heard for the first time. -/
def leftByAnother : List Input :=
  listenRun ++
    [.env (.datagram 3 messageDatagram), .runloop (.ready [{ pollin := true }]), .visit none,
      .read { peek := .upTo 8 }, .read {}, .endPoll, .timeouts 0, .deliver {},
      .app (.setConnContext 0 5), .ret, .deliver {}, .ret, .deliver {},
      .env (.datagram 3 ⟨2, 2, setHeader .oneWay 0 1 ++ [66]⟩),
      .runloop (.ready [{ pollin := true }]), .visit none, .read { peek := .upTo 8 }, .read {},
      .endPoll, .timeouts 0]

/-- The first callback for the other remote finds what the callback for the first one stored, and
    not the context that the conn began with. -/
theorem own_contexts_shown :
    ∃ s₀ s s' p rest, machine.run plain listenRun = some s₀ ∧ (s₀.conn 0).connContext = null ∧
      machine.run plain leftByAnother = some s ∧ s.phase = .delivering (p :: rest) ∧
      p = readyCall 0 ⟨2, 2, .udp⟩ ∧ step s (.deliver {}) = some s' ∧
      (s'.conn 0).remoteAddress = ⟨2, 2, .udp⟩ ∧ (s'.conn 0).connContext = 5 := by
  have hbegin : (machine.run plain listenRun).map (fun s : State => (s.conn 0).connContext) =
      some null := by decide +kernel
  have hrun : (machine.run plain leftByAnother).map (fun s : State =>
      (s.phase.saved.head?.map fun p : PendingCall => decide (p = readyCall 0 ⟨2, 2, .udp⟩),
        (step s (.deliver {})).map fun s' : State =>
          ((s'.conn 0).remoteAddress, (s'.conn 0).connContext))) =
      some (some true, some (⟨2, 2, .udp⟩, 5)) := by decide +kernel
  obtain ⟨s₀, hs₀, hinitial⟩ := Option.map_eq_some_iff.mp hbegin
  obtain ⟨s, hs, hview⟩ := Option.map_eq_some_iff.mp hrun
  obtain ⟨hhead, hstep⟩ := Prod.mk.inj hview
  obtain ⟨p, hhead, hp⟩ := Option.map_eq_some_iff.mp hhead
  obtain ⟨rest, hphase⟩ := Phase.delivering_of_saved hhead
  obtain ⟨s', hcall, hview⟩ := Option.map_eq_some_iff.mp hstep
  obtain ⟨haddress, hcontext⟩ := Prod.mk.inj hview
  exact ⟨s₀, s, s', p, rest, hs₀, hinitial, hs, hphase, of_decide_eq_true hp, hcall, haddress,
    hcontext⟩

end Msgbox
