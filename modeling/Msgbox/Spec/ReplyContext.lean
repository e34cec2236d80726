import Msgbox.Lib.Keyed
import Msgbox.Spec.Callbacks

/-!
# The reply context of a reply

A reply is matched with the get that its id was handed out for, and the context of that get
is written to the conn at once, or to the metadata of a udp message.

## Key results

- `Gets`: every context that is found for an id was passed to the get with that id
- `reply_context_iff`: when the callback for a reply sees the context of its get
-/

namespace Msgbox

/-- A get of the status is given the id. -/
def Obs.isGet (sid : StatusId) (id : UInt16) : Obs → Bool
  | .got _ sid' id' _ _ => sid' == sid && id' == id
  | _ => false

/-- A get of the status was given the id. -/
def issued (t : List Obs) (sid : StatusId) (id : UInt16) : Bool := t.any (Obs.isGet sid id)

/-- `next_reply_id` has not wrapped: the id that a get is about to be given is new. -/
def noWrap (s : State) : Input → Bool
  | .app (.get c _ _ _ _) =>
    match s.statusOfConn c with
    | some sid => !issued s.trace sid (s.status sid).nextReplyId
    | none => true
  | _ => true

/-- A get issues its id. -/
private theorem issued_of_mem {t : List Obs} {c : ConnId} {sid : StatusId} {id : UInt16}
    {context : Ptr}
    {sent : Bool} (h : Obs.got c sid id context sent ∈ t) : issued t sid id = true :=
  List.any_eq_true.mpr ⟨_, h, by simp [Obs.isGet]⟩

/-- Nothing else does. -/
private theorem issued_log {o : Obs} (ho : o.isNote = true) (t : List Obs) (sid : StatusId)
    (id : UInt16) : issued (o :: t) sid id = issued t sid id := by
  cases o <;> first | rfl | exact Bool.noConfusion ho

/-- Contexts that were entered or matched come from the get with the same id. -/
structure Gets (s : State) : Prop where
  entry : ∀ sid id context, (s.status sid).replyContexts.lookup id = some context →
    ∃ c sent, Obs.got c sid id context sent ∈ s.trace
  matched : ∀ p, Obs.queued p ∈ s.trace → ∀ a sid h payload context,
    p.cause = .frame a sid h payload (some context) → h.kind = .reply →
      ∃ c sent, Obs.got c sid h.replyId context sent ∈ s.trace
  unique : ∀ c c' sid id context context' sent sent', Obs.got c sid id context sent ∈ s.trace →
    Obs.got c' sid id context' sent' ∈ s.trace → context = context'

/-- No context is entered. -/
def KeepsEntries (s s' : State) : Prop :=
  ∀ sid id context, (s'.status sid).replyContexts.lookup id = some context →
    (s.status sid).replyContexts.lookup id = some context

namespace State

variable {s₀ s s' : State} {i : Input}

/-- The same statuses have the same entries. -/
private theorem keepsEntries_of_eq (h : s'.status = s.status) : KeepsEntries s s' := by
  intro sid id context hlookup
  rwa [h] at hlookup

/-- A write to one status. -/
private theorem keepsEntries_update {sid : StatusId} {status : ConnStatus}
    (h : s'.status = Function.update s.status sid status)
    (hentry : ∀ id context, status.replyContexts.lookup id = some context →
      (s.status sid).replyContexts.lookup id = some context) : KeepsEntries s s' := by
  intro sid' id context hlookup
  rw [h] at hlookup
  by_cases hsid : sid' = sid
  · subst hsid
    rw [Function.update_self] at hlookup
    exact hentry id context hlookup
  · rwa [Function.update_of_ne hsid] at hlookup

/-- Without new entries, each is still that of a get. -/
private theorem gets_of_eq (h : Gets s) (hentries : KeepsEntries s s')
    (htrace : s'.trace = s.trace) :
    Gets s' where
  entry sid id context hlookup := htrace ▸ h.entry sid id context (hentries sid id context hlookup)
  matched p hp := htrace ▸ h.matched p (htrace ▸ hp)
  unique c c' sid id context context' sent sent' hgot hgot' :=
    h.unique c c' sid id context context' sent sent' (htrace ▸ hgot) (htrace ▸ hgot')

/-- One more observation that is not a get. -/
theorem gets_cons (h : Gets s) (hentries : KeepsEntries s s') {o : Obs}
    (htrace : s'.trace = o :: s.trace)
    (hgot : ∀ c sid id context sent, o ≠ .got c sid id context sent)
    (hmatched : ∀ p, o = .queued p → ∀ a sid hd payload context,
      p.cause = .frame a sid hd payload (some context) → hd.kind = .reply →
        ∃ c sent, Obs.got c sid hd.replyId context sent ∈ s.trace) : Gets s' where
  entry sid id context hlookup := by
    obtain ⟨c, sent, hmem⟩ := h.entry sid id context (hentries sid id context hlookup)
    exact ⟨c, sent, htrace ▸ List.mem_cons_of_mem _ hmem⟩
  matched p hp a sid hd payload context hcause hkind := by
    rw [htrace] at hp ⊢
    have hold : ∃ c sent, Obs.got c sid hd.replyId context sent ∈ s.trace := by
      rcases List.mem_cons.mp hp with heq | hin
      · exact hmatched p heq.symm a sid hd payload context hcause hkind
      · exact h.matched p hin a sid hd payload context hcause hkind
    obtain ⟨c, sent, hmem⟩ := hold
    exact ⟨c, sent, List.mem_cons_of_mem _ hmem⟩
  unique c c' sid id context context' sent sent' hmem hmem' := by
    rw [htrace] at hmem hmem'
    have hin := (List.mem_cons.mp hmem).resolve_left (hgot _ _ _ _ _).symm
    have hin' := (List.mem_cons.mp hmem').resolve_left (hgot _ _ _ _ _).symm
    exact h.unique c c' sid id context context' sent sent' hin hin'

/-- A call that is queued for another reason than a reply that was matched. -/
private theorem gets_queue (h : Gets s) (hentries : KeepsEntries s s') {p : PendingCall}
    (htrace : s'.trace = .queued p :: s.trace)
    (hcause : ∀ a sid hd payload context, p.cause = .frame a sid hd payload (some context) →
      hd.kind ≠ .reply) : Gets s' := by
  refine gets_cons h hentries htrace (fun _ _ _ _ _ heq => Obs.noConfusion heq) ?_
  intro p' hp' a sid hd payload context heq hkind
  obtain rfl := Obs.queued.inj hp'
  exact absurd hkind (hcause a sid hd payload context heq)

/-- An observation that is neither a get nor a call that is queued. -/
private theorem gets_log (h : Gets s) (hentries : KeepsEntries s s') {o : Obs}
    (htrace : s'.trace = o :: s.trace) (hqueued : o.isQueued = false)
    (hgot : ∀ c sid id context sent, o ≠ .got c sid id context sent) : Gets s' := by
  refine gets_cons h hentries htrace hgot (fun p hp => ?_)
  rw [hp] at hqueued
  exact Bool.noConfusion hqueued

/-- A get is given a new id. -/
private theorem gets_get (h : Gets s) {c : ConnId} {sid : StatusId} {context : Ptr} {sent : Bool}
    (hstatus : s'.status = (s.enterGet sid context).status)
    (htrace : s'.trace = .got c sid (s.status sid).nextReplyId context sent :: s.trace)
    (hnew : issued s.trace sid (s.status sid).nextReplyId = false) : Gets s' where
  entry sid' id context' hlookup := by
    rw [hstatus, enterGet_status] at hlookup
    rw [htrace]
    by_cases hsid : sid' = sid
    · subst hsid
      rw [Function.update_self] at hlookup
      rcases AList.lookup_insert_eq_some.mp hlookup with ⟨rfl, rfl⟩ | ⟨-, hold⟩
      · exact ⟨c, sent, List.mem_cons_self⟩
      · obtain ⟨c', sent', hmem⟩ := h.entry sid' id context' hold
        exact ⟨c', sent', List.mem_cons_of_mem _ hmem⟩
    · rw [Function.update_of_ne hsid] at hlookup
      obtain ⟨c', sent', hmem⟩ := h.entry sid' id context' hlookup
      exact ⟨c', sent', List.mem_cons_of_mem _ hmem⟩
  matched p hp a sid' hd payload context' hcause hkind := by
    rw [htrace] at hp ⊢
    have hin := (List.mem_cons.mp hp).resolve_left (fun heq => Obs.noConfusion heq)
    obtain ⟨c', sent', hmem⟩ := h.matched p hin a sid' hd payload context' hcause hkind
    exact ⟨c', sent', List.mem_cons_of_mem _ hmem⟩
  unique c₁ c₂ sid' id context₁ context₂ sent₁ sent₂ hmem₁ hmem₂ := by
    rw [htrace] at hmem₁ hmem₂
    -- Two gets with the new id are the same, and older gets do not have it.
    have hold : ∀ {c' : ConnId} {context' : Ptr} {sent' : Bool},
        Obs.got c' sid (s.status sid).nextReplyId context' sent' ∉ s.trace := by
      intro c' context' sent' hmem
      rw [issued_of_mem hmem] at hnew
      exact Bool.noConfusion hnew
    rcases List.mem_cons.mp hmem₁ with heq₁ | hin₁
    · injection heq₁ with _ hsid hid hctx
      subst hsid hid hctx
      rcases List.mem_cons.mp hmem₂ with heq₂ | hin₂
      · injection heq₂ with _ _ _ hctx'
        exact hctx'.symm
      · exact absurd hin₂ hold
    · rcases List.mem_cons.mp hmem₂ with heq₂ | hin₂
      · injection heq₂ with _ hsid hid
        subst hsid hid
        exact absurd hin₁ hold
      · exact h.unique c₁ c₂ sid' id context₁ context₂ sent₁ sent₂ hin₁ hin₂

/-- Early effects add no entries. -/
private theorem gets_early (h : Gets s) (heffect : Early s₀ i s s') : Gets s' := by
  cases heffect with
  | kernel | leak | close | poll => exact gets_of_eq h (keepsEntries_of_eq rfl) rfl
  | note o ho =>
    refine gets_log h (keepsEntries_of_eq rfl) rfl (Obs.isQueued_of_isNote ho) ?_
    rintro c sid id context sent rfl
    exact Bool.noConfusion ho
  | header hd =>
    exact gets_log h (keepsEntries_of_eq rfl) rfl rfl (fun _ _ _ _ _ heq => Obs.noConfusion heq)
  | buffer => exact gets_of_eq h (keepsEntries_update rfl fun _ _ hlookup => hlookup) rfl
  | ready =>
    refine gets_queue h (keepsEntries_update rfl fun _ _ hlookup => ?_) rfl
      (fun _ _ _ _ _ heq => Cause.noConfusion heq)
    exact absurd hlookup.symm (Option.some_ne_none _)
  | error =>
    exact gets_queue h (keepsEntries_of_eq rfl) rfl (fun _ _ _ _ _ heq => Cause.noConfusion heq)
  | unflag => exact gets_of_eq h (keepsEntries_of_eq rfl) rfl

/-- Where the ids do not wrap, the next id of a status is new. -/
private theorem issued_of_noWrap {c : ConnId} {payload : List UInt8} {context : Ptr} {now : Nat}
    {w : SendIn} {sid : StatusId} {o : Obs} (hok : noWrap s₀ i = true)
    (hcalls : i.Calls s₀ (.get c payload context now w)) (ho : o.isNote = true)
    (hstart : s = s₀.log o) (hsid : s.statusOfConn c = some sid) :
    issued s.trace sid (s.status sid).nextReplyId = false := by
  subst hstart
  have hsid₀ : s₀.statusOfConn c = some sid := hsid
  rw [hcalls.input] at hok
  simp only [noWrap, hsid₀, Bool.not_eq_true'] at hok
  rw [log_trace, issued_log ho]
  exact hok

/-- Every effect keeps the entries those of gets. -/
private theorem gets_effect (hok : noWrap s₀ i = true) (h : Gets s) (heffect : Effect s₀ i s s') :
    Gets s' := by
  cases heffect with
  | early hearly => exact gets_early h hearly
  | oneWay =>
    exact gets_log h (keepsEntries_of_eq rfl) rfl rfl (fun _ _ _ _ _ heq => Obs.noConfusion heq)
  | @datagram c r d =>
    exact gets_log h (keepsEntries_of_eq rfl) (o := .datagram c ⟨d.ip, d.port, .udp⟩ d.bytes)
      rfl rfl
      (fun _ _ _ _ _ heq => Obs.noConfusion heq)
  | opened k =>
    exact gets_log h (keepsEntries_of_eq rfl) (o := .opened s.nextConn) rfl rfl
      (fun _ _ _ _ _ heq => Obs.noConfusion heq)
  | listening =>
    exact gets_queue h (keepsEntries_of_eq rfl) rfl (fun _ _ _ _ _ heq => Cause.noConfusion heq)
  | context => exact gets_of_eq h (keepsEntries_of_eq rfl) rfl
  | address => exact gets_of_eq h (keepsEntries_of_eq rfl) rfl
  -- An id that has not wrapped was never given out before.
  | get hcalls ho hstart hsid =>
    exact gets_get h rfl rfl (issued_of_noWrap hok hcalls ho hstart hsid)
  | failedGet hcalls ho hstart hsid =>
    exact gets_get h rfl rfl (issued_of_noWrap hok hcalls ho hstart hsid)
  -- An entry still there was there before.
  | expire =>
    refine gets_queue h (keepsEntries_update rfl fun _ _ hlookup => ?_) rfl
      (fun _ _ _ _ _ heq => Cause.noConfusion heq)
    exact (AList.lookup_erase_eq_some.mp hlookup).2
  | swap => exact gets_of_eq h (keepsEntries_of_eq rfl) rfl
  | phase => exact gets_of_eq h (keepsEntries_of_eq rfl) rfl
  | removal =>
    obtain ⟨index, heq⟩ := removalPass_eq s
    rw [heq]
    exact gets_of_eq h (keepsEntries_of_eq rfl) rfl
  | @call call rest junk =>
    rw [makeCall_eq]
    exact gets_log h (keepsEntries_of_eq rfl) (o := .called (s.loaded call junk) call) rfl rfl
      (fun _ _ _ _ _ heq => Obs.noConfusion heq)
  | @finish f stack =>
    rw [finishCall_eq]
    refine gets_of_eq h (fun sid id context hlookup => ?_) rfl
    obtain ⟨connContext, heq⟩ := saveContext_status s f sid
    rwa [show (s.saveContext f).status sid = _ from heq] at hlookup

/-- So does the last effect of a step. -/
private theorem gets_final (h : Gets s) (hfinal : Final s₀ i s s') : Gets s' := by
  cases hfinal with
  | handled _ _ hkind =>
    refine gets_queue h (keepsEntries_of_eq rfl) rfl (fun _ _ hd _ _ heq => ?_)
    injection heq with _ _ hhd
    exact hhd ▸ hkind
  | @matched c r event m context data _ _ hkind _ hlookup =>
    have herase : KeepsEntries s ((s.resolve c m.status m.header.replyId context).sendCallback c
        event (some data) .nothing (.frame (s.conn c).remoteAddress m.status m.header m.data.bytes
          (some context))) :=
      keepsEntries_update rfl fun _ _ hlookup => (AList.lookup_erase_eq_some.mp hlookup).2
    refine gets_cons h herase rfl (fun _ _ _ _ _ heq => Obs.noConfusion heq) ?_
    intro p hp a sid hd payload context' hcause _
    -- The context of the call is that of the entry just erased.
    obtain rfl := Obs.queued.inj hp
    injection hcause with _ hsid hhd _ hctx
    obtain rfl := Option.some.inj hctx
    subst hsid hhd
    exact h.entry _ _ _ hlookup
  | unmatched =>
    refine gets_queue h (keepsEntries_of_eq rfl) rfl (fun _ _ _ _ _ heq => ?_)
    injection heq with _ _ _ _ hctx
    exact nomatch hctx
  | @drop c event ph =>
    refine gets_queue h ?_ (localDisconnect_trace s c event)
      (fun _ _ _ _ _ heq => Cause.noConfusion heq)
    intro sid id context hlookup
    rw [localDisconnect_status, unsetStatus_status_apply] at hlookup
    split at hlookup <;> exact hlookup
  | refuse =>
    exact gets_queue h (keepsEntries_of_eq rfl) rfl (fun _ _ _ _ _ heq => Cause.noConfusion heq)
  | fail k =>
    have hopened : Gets (s.allocConn k) :=
      gets_log h (keepsEntries_of_eq rfl) (o := .opened s.nextConn) rfl rfl
        (fun _ _ _ _ _ heq => Obs.noConfusion heq)
    exact gets_queue hopened (keepsEntries_of_eq rfl) rfl
      (fun _ _ _ _ _ heq => Cause.noConfusion heq)

end State

/-- While no id is handed out twice, contexts belong to the get with their id. -/
theorem reach_gets {s : State} (h : machine.Reach (fun s i => noWrap s i = true) s) : Gets s := by
  refine reach_invariant Gets ?_ ?_ ?_ h
  · exact ⟨fun _ _ _ hlookup => absurd hlookup.symm (Option.some_ne_none _),
      fun _ hp => absurd hp List.not_mem_nil, fun _ _ _ _ _ _ _ _ hp => absurd hp List.not_mem_nil⟩
  · intro s₀ s s' i hok _ _ hinv heffect
    exact State.gets_effect hok hinv heffect
  · intro s₀ s s' i _ _ _ hinv hfinal
    exact State.gets_final hinv hfinal

/-- The callback for the reply to a get sees the context of that get if and only if the conn
    is a udp conn, or no later message or timeout has left another context there. -/
theorem reply_context_iff {s : State} (h : machine.Reach (fun s i => noWrap s i = true) s)
    {t₁ t₂ : List Obs} {k : Conn} {p : PendingCall} {a : Address} {sid : StatusId} {hd : Header}
    {payload : List (Option UInt8)} {c : ConnId} {context : Ptr} {sent : Bool}
    (htrace : s.trace = t₁ ++ .called k p :: t₂) (hevent : p.event = .reply)
    (hcause : ∃ found, p.cause = .frame a sid hd payload found) (hkind : hd.kind = .reply)
    (hgot : Obs.got c sid hd.replyId context sent ∈ t₂) :
    k.replyContext = context ↔ k.protocolType = .udp ∨ lastContext t₂ p.conn = context := by
  have hcalled := reach_called h
  have hgets := reach_gets h
  obtain ⟨hqueued, -, hctx⟩ := hcalled.along.at htrace
  have hmem : ∀ {o : Obs}, o ∈ t₂ → o ∈ s.trace := by
    intro o ho
    rw [htrace]
    simp [ho]
  obtain ⟨found, hcause⟩ := hcause
  cases found with
  -- An unmatched reply makes an error, not this event.
  | none =>
    have hfits := hcalled.fits p (hmem hqueued)
    simp only [PendingCall.Fits, hcause, hevent] at hfits
    exact Bool.noConfusion hfits
  | some context' =>
    obtain ⟨c', sent', hgot'⟩ :=
      hgets.matched p (hmem hqueued) a sid hd payload context' hcause hkind
    -- One id on a status belongs to one get.
    obtain rfl := hgets.unique _ _ _ _ _ _ _ _ (hmem hgot) hgot'
    rw [hctx a sid hd payload context hcause]
    split
    · rename_i hudp
      simp [hudp]
    · rename_i hudp
      simp [hudp]

/-- Two gets with the contexts 7 and 9, and their replies, of which the given number is read
    before the first callback. -/
def twoReplies (messages : Nat) : List Input :=
  connectRun ++ [.app (.get 0 [1] 7 0 {}), .app (.get 0 [2] 9 0 {})] ++
    readMessages (setHeader .reply 1 1 ++ [65] ++ setHeader .reply 2 1 ++ [66]) messages

/-- With only the first reply read by then, its callback sees the context of its get. -/
theorem reply_context_first :
    ∃ s k p t, machine.Reach (fun s i => noWrap s i = true) s ∧
      s.trace = [] ++ .called k p :: t ∧ p.event = .reply ∧ k.replyContext = 7 := by
  obtain ⟨s, hreach, hview⟩ := machine.exists_reach_of_run noWrap (fun _ _ h => h) (twoReplies 1)
    (fun s => (justCalled s).map fun (_, p, t) =>
      (p.event, p.cause, lastContext t p.conn, decide (.got 0 0 1 7 true ∈ t)))
    (some (.reply, .frame ⟨67305985, 80, .tcp⟩ 0 ⟨2, 1, 1⟩ [some 65] (some 7), 7, true))
    (by decide +kernel)
  obtain ⟨⟨k, p, t⟩, hcalled, heq⟩ := Option.map_eq_some_iff.mp hview
  simp only [Prod.mk.injEq, decide_eq_true_eq] at heq
  obtain ⟨hevent, hcause, hlast, hgot⟩ := heq
  have htrace := trace_of_justCalled hcalled
  exact ⟨s, k, p, t, hreach, htrace, hevent,
    (reply_context_iff hreach htrace hevent ⟨_, hcause⟩ (by decide) hgot).mpr (.inr hlast)⟩

/-- With both replies read by then, the callback for the first one sees the context of the
    second get. -/
theorem reply_context_not_first :
    ∃ s k p t, machine.Reach (fun s i => noWrap s i = true) s ∧
      s.trace = [] ++ .called k p :: t ∧ p.event = .reply ∧
      p.cause = .frame ⟨67305985, 80, .tcp⟩ 0 ⟨2, 1, 1⟩ [some 65] (some 7) ∧
      Obs.got 0 0 1 7 true ∈ t ∧ k.replyContext = 9 ∧ k.replyContext ≠ 7 := by
  obtain ⟨s, hreach, hview⟩ := machine.exists_reach_of_run noWrap (fun _ _ h => h) (twoReplies 2)
    (fun s => (justCalled s).map fun (k, p, t) =>
      (p.event, p.cause, k.replyContext, decide (.got 0 0 1 7 true ∈ t)))
    (some (.reply, .frame ⟨67305985, 80, .tcp⟩ 0 ⟨2, 1, 1⟩ [some 65] (some 7), 9, true))
    (by decide +kernel)
  obtain ⟨⟨k, p, t⟩, hcalled, heq⟩ := Option.map_eq_some_iff.mp hview
  simp only [Prod.mk.injEq, decide_eq_true_eq] at heq
  obtain ⟨hevent, hcause, hctx, hgot⟩ := heq
  exact ⟨s, k, p, t, hreach, trace_of_justCalled hcalled, hevent, hcause, hgot, hctx,
    by rw [hctx]; decide⟩

end Msgbox
