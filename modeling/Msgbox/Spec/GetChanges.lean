import Msgbox.Lib.Keyed
import Msgbox.Spec.ReplyContext

/-!
# What an effect does to pending gets

The reply contexts of the statuses and the timeouts change in three ways only: a get is
entered, a get is resolved, by its reply or by its timeout, or nothing happens to them.

## Key results

- `effect_getChange`, `final_getChange`: every effect is of one of the three kinds
-/

namespace Msgbox

/-- The observation resolves the get of the status with the id: a reply that was matched with
    it, or its timeout. -/
def Obs.resolves (sid : StatusId) (id : UInt16) : Obs → Bool
  | .queued ⟨_, _, _, _, .frame _ sid' h _ (some _)⟩ =>
    h.kind == .reply && decide (sid = sid' ∧ id = h.replyId)
  | .queued ⟨_, _, _, _, .timeout sid' id' _⟩ => decide (sid = sid' ∧ id = id')
  | _ => false

/-- The observation is of a `msg_reply` event, or of the `msg_error` event of a timeout. -/
def Obs.isResolution : Obs → Bool
  | .queued ⟨_, .reply, _, _, .frame _ _ _ _ _⟩ => true
  | .queued ⟨_, .error, _, _, .timeout _ _ _⟩ => true
  | _ => false

/-- The observation is of a call about a message that was read completely. -/
def Obs.isFrame : Obs → Bool
  | .queued ⟨_, _, _, _, .frame _ _ _ _ _⟩ => true
  | _ => false

/-- The observation has nothing to do with gets. -/
def Obs.IsQuiet (o : Obs) : Prop :=
  ∀ sid id, o.resolves sid id = false ∧ o.isGet sid id = false

/-- The timeout of the get of the status with the id. -/
def Timeout.isFor (sid : StatusId) (id : UInt16) (t : Timeout) : Bool :=
  t.status == sid && t.replyId == id

/-- The three kinds of effects. -/
inductive GetChange (s₀ : State) (i : Input) (s s' : State) : Prop
  | quiet
      (hentries : ∀ sid, (s'.status sid).replyContexts = (s.status sid).replyContexts)
      (htimeouts : s'.timeouts = s.timeouts) (hnext : s.nextStatus ≤ s'.nextStatus)
      (htrace : ∃ new : List Obs, (∀ o ∈ new, o.IsQuiet) ∧ s'.trace = new ++ s.trace)
  | get {c : ConnId} {payload : List UInt8} {context : Ptr} {now : Nat} {w : SendIn}
      {sid : StatusId} {o : Obs} (sent : Bool)
      (hcalls : i.Calls s₀ (.get c payload context now w)) (ho : o.isNote = true)
      (hstart : s = s₀.log o) (hsid : s.statusOfConn c = some sid)
      (hsent : s₀.getFails c payload w = !sent)
      (hstatus : s'.status = (s.enterGet sid context).status)
      (htimeouts : s'.timeouts = if sent = true
        then s.timeouts ++ [⟨now + State.udpTimeout, c, sid, (s.status sid).nextReplyId⟩]
        else s.timeouts)
      (hnext : s'.nextStatus = s.nextStatus)
      (htrace : s'.trace = .got c sid (s.status sid).nextReplyId context sent :: s.trace)
  | resolve {o : Obs} {sid : StatusId} {id : UInt16}
      (hcause : o.isFrame = true ∨ ∃ now, i = .timeouts now) (hevent : o.isResolution = true)
      (hsome : ((s.status sid).replyContexts.lookup id).isSome = true)
      (hresolves : ∀ sid' id', o.resolves sid' id' = decide (sid' = sid ∧ id' = id))
      (hget : ∀ sid' id', o.isGet sid' id' = false)
      (hentries : ∀ sid', (s'.status sid').replyContexts =
        if sid' = sid then (s.status sid).replyContexts.erase id
        else (s.status sid').replyContexts)
      (htimeouts : s'.timeouts = s.timeouts.eraseP (Timeout.isFor sid id))
      (hnext : s'.nextStatus = s.nextStatus) (htrace : s'.trace = o :: s.trace)

namespace State

variable {s₀ s s' : State} {i : Input}

/-- A status that was not handed out has no entries. -/
def FreshStatus (s : State) : Prop :=
  ∀ sid, s.nextStatus ≤ sid → (s.status sid).replyContexts = ∅

/-- A note is quiet. -/
private theorem quiet_of_isNote {o : Obs} (h : o.isNote = true) : o.IsQuiet := by
  intro sid id
  cases o <;> first | exact ⟨rfl, rfl⟩ | exact Bool.noConfusion h

/-- Nothing happens to the statuses and the timeouts. -/
private theorem getChange_of_eq (hstatus : s'.status = s.status)
    (htimeouts : s'.timeouts = s.timeouts) (hnext : s'.nextStatus = s.nextStatus)
    (htrace : ∃ new : List Obs, (∀ o ∈ new, o.IsQuiet) ∧ s'.trace = new ++ s.trace) :
    GetChange s₀ i s s' :=
  .quiet (fun sid => by rw [hstatus]) htimeouts hnext.ge htrace

/-- Nothing observed is quiet. -/
private theorem quiet_nil {t : List Obs} (h : t = s.trace) :
    ∃ new : List Obs, (∀ o ∈ new, o.IsQuiet) ∧ t = new ++ s.trace :=
  ⟨[], fun _ ho => absurd ho List.not_mem_nil, h⟩

/-- So is one quiet observation. -/
private theorem quiet_cons {t : List Obs} {o : Obs} (ho : o.IsQuiet) (h : t = o :: s.trace) :
    ∃ new : List Obs, (∀ o ∈ new, o.IsQuiet) ∧ t = new ++ s.trace :=
  ⟨[o], fun _ ho' => List.mem_singleton.mp ho' ▸ ho, h⟩

/-- A write to one status that is not about its entries. -/
private theorem entries_update {sid : StatusId} {status : ConnStatus}
    (h : status.replyContexts = (s.status sid).replyContexts) (sid' : StatusId) :
    (Function.update s.status sid status sid').replyContexts = (s.status sid').replyContexts := by
  by_cases hsid : sid' = sid
  · rw [hsid, Function.update_self, h]
  · rw [Function.update_of_ne hsid]

/-- Taking an id out of one status leaves the entries of the others. -/
theorem entries_erase {sid : StatusId} {id : UInt16} {status : ConnStatus}
    (h : status.replyContexts = (s.status sid).replyContexts.erase id) (sid' : StatusId) :
    (Function.update s.status sid status sid').replyContexts =
      if sid' = sid then (s.status sid).replyContexts.erase id
      else (s.status sid').replyContexts := by
  by_cases hsid : sid' = sid
  · rw [hsid, Function.update_self, h, if_pos rfl]
  · rw [Function.update_of_ne hsid, if_neg hsid]

/-- Early effects change no gets. -/
private theorem early_getChange (hfresh : FreshStatus s) (heffect : Early s₀ i s s') :
    GetChange s₀ i s s' := by
  cases heffect with
  | kernel | leak | close | poll => exact getChange_of_eq rfl rfl rfl (quiet_nil rfl)
  | note o ho => exact getChange_of_eq rfl rfl rfl (quiet_cons (quiet_of_isNote ho) rfl)
  | @header c r hd =>
    exact getChange_of_eq rfl rfl rfl (quiet_cons (o := .header c hd) (fun _ _ => ⟨rfl, rfl⟩) rfl)
  | buffer => exact .quiet (entries_update rfl) rfl (Nat.le_refl _) (quiet_nil rfl)
  | @ready c =>
    refine .quiet (fun sid => ?_) rfl (Nat.le_succ _) (quiet_cons (fun _ _ => ⟨rfl, rfl⟩) rfl)
    exact entries_update (hfresh s.nextStatus (Nat.le_refl _)).symm sid
  | error => exact getChange_of_eq rfl rfl rfl (quiet_cons (fun _ _ => ⟨rfl, rfl⟩) rfl)
  | unflag => exact getChange_of_eq rfl rfl rfl (quiet_nil rfl)

/-- The timeout pass takes the timeouts in order. -/
private theorem eraseP_isFor_head (t : Timeout) (rest : List Timeout) :
    (t :: rest).eraseP (Timeout.isFor t.status t.replyId) = rest := by
  rw [List.eraseP_cons_of_pos]
  simp [Timeout.isFor]

/-- How an effect changes the gets. -/
theorem effect_getChange (hfresh : FreshStatus s) (heffect : Effect s₀ i s s') :
    GetChange s₀ i s s' := by
  cases heffect with
  | early hearly => exact early_getChange hfresh hearly
  | oneWay => exact getChange_of_eq rfl rfl rfl (quiet_cons (fun _ _ => ⟨rfl, rfl⟩) rfl)
  | @datagram c r d =>
    exact getChange_of_eq rfl rfl rfl
      (quiet_cons (o := .datagram c ⟨d.ip, d.port, .udp⟩ d.bytes) (fun _ _ => ⟨rfl, rfl⟩) rfl)
  | opened => exact getChange_of_eq rfl rfl rfl (quiet_cons (fun _ _ => ⟨rfl, rfl⟩) rfl)
  | listening => exact getChange_of_eq rfl rfl rfl (quiet_cons (fun _ _ => ⟨rfl, rfl⟩) rfl)
  | context => exact getChange_of_eq rfl rfl rfl (quiet_nil rfl)
  | address => exact getChange_of_eq rfl rfl rfl (quiet_nil rfl)
  | get hcalls ho hstart hsid hsent =>
    exact .get true hcalls ho hstart hsid hsent rfl rfl rfl rfl
  | failedGet hcalls ho hstart hsid hfails =>
    exact .get false hcalls ho hstart hsid hfails rfl rfl rfl rfl
  -- The timeout removed is the head, which is the one of the entry removed.
  | @expire now t rest context data hinput _ htimeouts _ hlookup =>
    refine .resolve (.inr ⟨now, hinput⟩) rfl (by rw [hlookup]; rfl) (fun _ _ => rfl)
      (fun _ _ => rfl)
      (entries_erase rfl) ?_ rfl rfl
    rw [htimeouts, eraseP_isFor_head]
    rfl
  | swap => exact getChange_of_eq rfl rfl rfl (quiet_nil rfl)
  | phase => exact getChange_of_eq rfl rfl rfl (quiet_nil rfl)
  | removal =>
    obtain ⟨index, heq⟩ := removalPass_eq s
    rw [heq]
    exact getChange_of_eq rfl rfl rfl (quiet_nil rfl)
  | @call call rest junk =>
    rw [makeCall_eq]
    exact getChange_of_eq rfl rfl rfl
      (quiet_cons (o := .called (s.loaded call junk) call) (fun _ _ => ⟨rfl, rfl⟩) rfl)
  | @finish f stack =>
    rw [finishCall_eq]
    refine .quiet (fun sid => ?_) rfl (Nat.le_refl _) (quiet_nil rfl)
    obtain ⟨connContext, heq⟩ := saveContext_status s f sid
    show ((s.saveContext f).status sid).replyContexts = (s.status sid).replyContexts
    rw [heq]

/-- How the last effect of a step changes the gets. -/
theorem final_getChange (hfinal : Final s₀ i s s') : GetChange s₀ i s s' := by
  cases hfinal with
  | @handled c r event m _ _ hkind =>
    refine getChange_of_eq rfl rfl rfl (quiet_cons (fun sid id => ⟨?_, rfl⟩) rfl)
    simp [Obs.resolves, hkind]
  | @matched c r event m context data _ hevent hkind _ hlookup =>
    have hreply : event = .reply := by
      rw [eventFor, hkind] at hevent
      exact (Option.some.inj hevent).symm
    subst hreply
    refine .resolve (.inl rfl) rfl (by rw [hlookup]; rfl) (fun sid id => ?_)
      (fun _ _ => rfl) (entries_erase rfl) rfl rfl rfl
    simp [Obs.resolves, hkind]
  | unmatched => exact getChange_of_eq rfl rfl rfl (quiet_cons (fun _ _ => ⟨rfl, rfl⟩) rfl)
  | @drop c event ph =>
    refine .quiet (fun sid => ?_) (by simp) (by simp)
      (quiet_cons (o := .queued (s.closingCall c event)) (fun _ _ => ⟨rfl, rfl⟩) (by simp))
    simp only [localDisconnect_status, unsetStatus_status_apply]
    split <;> rfl
  | refuse => exact getChange_of_eq rfl rfl rfl (quiet_cons (fun _ _ => ⟨rfl, rfl⟩) rfl)
  | fail k msg =>
    refine getChange_of_eq rfl rfl rfl ⟨[.queued ⟨s.nextConn, .error, some (msgNewData msg),
      .conn s.nextConn, .other⟩, .opened s.nextConn], fun o ho => ?_, rfl⟩
    simp only [List.mem_cons, List.not_mem_nil, or_false] at ho
    rcases ho with rfl | rfl <;> exact fun _ _ => ⟨rfl, rfl⟩

end State

end Msgbox
