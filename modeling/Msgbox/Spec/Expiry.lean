import Msgbox.Spec.Queue
import Msgbox.Spec.Resolution

/-!
# The timeout pass

The timeouts are sorted as long as the clock does not go back, so the pass, which stops at
the first timeout that is not due, finds all that are due. The calls that it queues are
computed from the state at its begin.

## Key results

- `timeoutFor_eq`: the loop with its index is `timeoutLoop`
- `expiryCalls`, `timeoutLoop_spec`: what the pass does, in terms of the state at its begin
- `timeouts_selected`: the timeouts are sorted, and which of them one pass ends
- `timeouts_not_selected`: a due timeout that no pass ends, as its conn was freed
-/

namespace Msgbox

/-- The values of the clock that a step reads, by `add_timeout` and by `msg_runloop`. -/
def readsClock (s : State) : Input → Option Nat
  | .timeouts now => some now
  | .app (.get c payload _ now w) => if s.getFails c payload w then none else some now
  | _ => none

/-- The timeouts are sorted, and none of them is later than a get at time `now` would be. -/
structure Sorted (now : Nat) (s : State) : Prop where
  sorted : s.timeouts.Pairwise (·.at_ ≤ ·.at_)
  bound : ∀ t ∈ s.timeouts, t.at_ ≤ now + State.udpTimeout

namespace State

variable {s₀ s s' : State} {i : Input}

/-! ## Sorting -/

/-- An effect removes timeouts, or adds one for a get at the current time. -/
private theorem effect_timeouts (heffect : Effect s₀ i s s') :
    s'.timeouts.Sublist s.timeouts ∨ ∃ now c sid id, readsClock s₀ i = some now ∧
      s'.timeouts = s.timeouts ++ [⟨now + udpTimeout, c, sid, id⟩] := by
  cases heffect with
  | early hearly => cases hearly <;> exact .inl (List.Sublist.refl _)
  | @get c payload context now w sid o hcalls ho hstart hsid hsent =>
    refine .inr ⟨now, c, sid, (s.status sid).nextReplyId, ?_, rfl⟩
    rw [hcalls.input, readsClock, hsent]
    rfl
  | expire _ _ htimeouts =>
    apply Or.inl
    rw [htimeouts]
    exact List.sublist_cons_self _ _
  | removal =>
    obtain ⟨index, heq⟩ := removalPass_eq s
    rw [heq]
    exact .inl (List.Sublist.refl _)
  | call =>
    rw [makeCall_eq]
    exact .inl (List.Sublist.refl _)
  | finish =>
    rw [finishCall_eq]
    exact .inl (List.Sublist.refl _)
  | _ => exact .inl (List.Sublist.refl _)

/-- The last effect of a step adds no timeouts. -/
theorem final_timeouts (hfinal : Final s₀ i s s') : s'.timeouts.Sublist s.timeouts := by
  cases hfinal with
  | matched => exact List.eraseP_sublist
  | @drop c event =>
    show (s.localDisconnect c event).timeouts.Sublist s.timeouts
    rw [localDisconnect_timeouts]
  | _ => exact List.Sublist.refl _

/-- Timeouts stay sorted when some of them go. -/
private theorem sorted_of_sublist {now : Nat} (h : Sorted now s)
    (hsub : s'.timeouts.Sublist s.timeouts) : Sorted now s' :=
  ⟨h.sorted.sublist hsub, fun t ht => h.bound t (hsub.subset ht)⟩

/-- A timeout that an effect adds is the latest, if the clock has not gone back. -/
private theorem sorted_effect {n : Nat} (hread : ∀ now, readsClock s₀ i = some now → now = n)
    (h : Sorted n s) (heffect : Effect s₀ i s s') : Sorted n s' := by
  rcases effect_timeouts heffect with hsub | ⟨now, c, sid, id, hnow, heq⟩
  · exact sorted_of_sublist h hsub
  · obtain rfl := hread now hnow
    constructor
    · rw [heq, List.pairwise_append]
      refine ⟨h.sorted, List.pairwise_singleton _ _, fun t ht t' ht' => ?_⟩
      rw [List.mem_singleton.mp ht']
      exact h.bound t ht
    · intro t ht
      rw [heq] at ht
      rcases List.mem_append.mp ht with hold | hnew
      · exact h.bound t hold
      · rw [List.mem_singleton.mp hnew]

/-- So the timeouts stay sorted in every step. -/
private theorem sorted_step {n : Nat} (h : Sorted n s)
    (hread : ∀ now, readsClock s i = some now → now = n) (hs : step s i = some s') :
    Sorted n s' := by
  obtain ⟨s₁, heffects, hlast⟩ := step_effects hs
  have h₁ : Sorted n s₁ := by
    clear hlast
    induction heffects with
    | refl => exact h
    | tail _ heffect ih => exact sorted_effect hread ih heffect
  rcases hlast with rfl | hfinal
  · exact h₁
  · exact sorted_of_sublist h₁ (final_timeouts hfinal)

/-! ## One round -/

/-- What a timeout names is there when the pass comes to it. -/
def Valid (s : State) (t : Timeout) : Prop :=
  s.freed t.conn = false ∧ (s.status t.status).deleted = false ∧
    (s.entry t.status t.replyId).isSome = true

/-- The data of the error for a timeout; the address is that of the next timeout, if there is
    one. -/
def expiryData (s : State) (t : Timeout) (rest : List Timeout) (context : Ptr) : MsgData :=
  let msg :=
    if (s.conn t.conn).protocolType = .tcp then "tcp get timed out" else "udp get timed out"
  let metadata : Metadata :=
    { replyContext := some context
      remoteAddress := some (s.status (rest.headD t).status).remoteAddress }
  { msgNewData msg with metadata := metadata }

/-- The call that the pass queues for a timeout, in terms of the state at the begin of the pass. -/
def expiryCall (s : State) (t : Timeout) (rest : List Timeout) : PendingCall :=
  let context := (s.entry t.status t.replyId).getD null
  { conn := t.conn
    event := .error
    data := some (s.expiryData t rest context)
    toFree := .nothing
    cause := .timeout t.status t.replyId context }

/-- The calls that the pass queues at time `now`. -/
def expiryCalls (s : State) (now : Nat) : List Timeout → List PendingCall
  | [] => []
  | t :: rest => if now < t.at_ then [] else s.expiryCall t rest :: s.expiryCalls now rest

/-- Nothing that the pass looks at has changed but the entry of one get. -/
structure OtherGets (s s' : State) (key : StatusId × UInt16) : Prop where
  freed : s'.freed = s.freed
  deleted : ∀ sid, (s'.status sid).deleted = (s.status sid).deleted
  address : ∀ sid, (s'.status sid).remoteAddress = (s.status sid).remoteAddress
  protocol : ∀ c, (s'.conn c).protocolType = (s.conn c).protocolType
  entry : ∀ sid id, s'.entry sid id = if (sid, id) = key then none else s.entry sid id

/-- One round for a valid timeout: its call is queued and its entry goes. -/
private theorem expire_eq {t : Timeout} (rest : List Timeout) (h : Valid s t) :
    ∃ s', s.expire t rest = some s' ∧ s'.timeouts = rest ∧
      s'.trace = .queued (s.expiryCall t rest) :: s.trace ∧
      s'.immediateCallbacks = s.immediateCallbacks ++ [s.expiryCall t rest] ∧
      OtherGets s s' t.key := by
  obtain ⟨hlive, hdeleted, hentry⟩ := h
  obtain ⟨context, hcontext⟩ := Option.isSome_iff_exists.mp hentry
  have hlookup := hcontext
  rw [entry] at hlookup
  -- Neither write changes the address of a status or the protocol of a conn.
  have haddress : ∀ sid, (Function.update s.status t.status { s.status t.status with
      replyContexts := (s.status t.status).replyContexts.erase t.replyId } sid).remoteAddress =
      (s.status sid).remoteAddress := by
    intro sid
    by_cases hsid : sid = t.status
    · subst hsid
      rw [Function.update_self]
    · rw [Function.update_of_ne hsid]
  have hprotocol : ∀ c, (Function.update s.conn t.conn { s.conn t.conn with
      replyContext := context } c).protocolType = (s.conn c).protocolType := by
    intro c
    by_cases hc : c = t.conn
    · subst hc
      rw [Function.update_self]
      rfl
    · rw [Function.update_of_ne hc]
  -- The pending get's context is the one the entry still has.
  have hcall : s.expiryCall t rest = ⟨t.conn, .error, some (s.expiryData t rest context), .nothing,
      .timeout t.status t.replyId context⟩ := by
    rw [expiryCall, hcontext]
    rfl
  have hdata : s.expiryData t rest context =
      let s₁ := s.timeOut t rest context
      { msgNewData (if (s₁.conn t.conn).protocolType = .tcp then "tcp get timed out"
          else "udp get timed out") with
        metadata := ⟨some context, some (s₁.status (rest.headD t).status).remoteAddress,
        none⟩ } := by
    simp only [expiryData, timeOut_conn, timeOut_status, hprotocol, haddress]
  refine ⟨(s.timeOut t rest context).sendCallback t.conn .error (some (s.expiryData t rest context))
    .nothing (.timeout t.status t.replyId context), ?_, rfl, ?_, ?_, ?_⟩
  · unfold expire
    simp only [hlive, hdeleted, Bool.false_eq_true, or_self, if_false, hlookup, hdata]
    simp [timeOut, modifyConn, modifyStatus, sendCallback]
  · rw [hcall]
    rfl
  · rw [hcall]
    rfl
  · refine ⟨rfl, fun sid => ?_, haddress, hprotocol, fun sid id => ?_⟩
    · by_cases hsid : sid = t.status
      · subst hsid
        simp
      · simp [hsid]
    -- Of the pending gets only the expired one is gone.
    · have herase : ∀ sid', ((s.timeOut t rest context).status sid').replyContexts =
          if sid' = t.status then (s.status t.status).replyContexts.erase t.replyId
          else (s.status sid').replyContexts := fun sid' => entries_erase rfl sid'
      refine (entry_erase herase sid id).trans ?_
      simp [Timeout.key]

/-- A round that goes through is for a valid timeout. -/
private theorem valid_of_expire {t : Timeout} {rest : List Timeout}
    (h : s.expire t rest = some s') :
    Valid s t := by
  unfold expire at h
  split at h
  · exact absurd h.symm (Option.some_ne_none s')
  · rename_i hlive
    split at h
    · exact absurd h.symm (Option.some_ne_none s')
    · rename_i context hlookup
      simp only [not_or, Bool.not_eq_true] at hlive
      exact ⟨hlive.1, hlive.2, by rw [entry, hlookup]; rfl⟩

/-! ## The loop -/

/-- A get that is not due does not decide the calls of the pass. -/
private theorem expiryCalls_congr {key : StatusId × UInt16} (h : OtherGets s s' key) {now : Nat}
    {l : List Timeout} (hkey : ∀ t ∈ l.takeWhile fun t => t.at_ ≤ now, t.key ≠ key) :
    s'.expiryCalls now l = s.expiryCalls now l := by
  induction l with
  | nil => rfl
  | cons t rest ih =>
    rw [expiryCalls, expiryCalls]
    by_cases hdue : now < t.at_
    · rw [if_pos hdue, if_pos hdue]
    · have hle : t.at_ ≤ now := by omega
      rw [List.takeWhile_cons_of_pos (by simpa using hle)] at hkey
      have hne : (t.status, t.replyId) ≠ key := hkey t List.mem_cons_self
      rw [if_neg hdue, if_neg hdue, ih fun t' ht' => hkey t' (List.mem_cons_of_mem _ ht'),
        expiryCall, expiryCall, h.entry, if_neg hne, expiryData,
        expiryData, h.protocol, h.address]

/-- What the pass does, in terms of the state at its begin: the due timeouts at the front of
    the array were valid, their calls are queued in this order, and their entries are gone. -/
theorem timeoutLoop_spec {now : Nat} {l : List Timeout} (htimeouts : s.timeouts = l)
    (h : timeoutLoop now l s = some s') :
    s'.timeouts = l.dropWhile (fun t => t.at_ ≤ now) ∧
      s'.trace = ((s.expiryCalls now l).map Obs.queued).reverse ++ s.trace ∧
      s'.immediateCallbacks = s.immediateCallbacks ++ s.expiryCalls now l ∧
      (∀ t ∈ l.takeWhile fun t => t.at_ ≤ now, Valid s t) ∧
      ∀ sid id, s'.entry sid id =
        if (sid, id) ∈ (l.takeWhile fun t => t.at_ ≤ now).map Timeout.key then none
        else s.entry sid id := by
  induction l generalizing s with
  | nil =>
    obtain rfl := Option.some.inj h
    simp [htimeouts, expiryCalls]
  | cons t rest ih =>
    rw [timeoutLoop] at h
    rw [expiryCalls]
    by_cases hdue : now < t.at_
    · rw [if_pos hdue] at h
      obtain rfl := Option.some.inj h
      have hnot : ¬ t.at_ ≤ now := by omega
      rw [if_pos hdue, List.takeWhile_cons_of_neg (by simpa using hnot),
        List.dropWhile_cons_of_neg (by simpa using hnot)]
      simp [htimeouts]
    · have hle : t.at_ ≤ now := by omega
      rw [if_neg hdue] at h ⊢
      obtain ⟨s₁, hexpire, hloop⟩ := Option.bind_eq_some_iff.mp h
      have hvalid := valid_of_expire hexpire
      obtain ⟨s₂, hexpire', hrest, htrace, hqueue, hother⟩ := expire_eq rest hvalid
      obtain rfl := Option.some.inj (hexpire'.symm.trans hexpire)
      obtain ⟨htimeouts', htrace', hqueue', hvalid', hentry'⟩ := ih hrest hloop
      -- The entry of this timeout is gone, so the ones that follow are for other gets.
      have hkey : ∀ t' ∈ rest.takeWhile fun t => t.at_ ≤ now, t'.key ≠ t.key := by
        intro t' ht' heq
        have hsome := (hvalid' t' ht').2.2
        rw [hother.entry, if_pos (show (t'.status, t'.replyId) = t.key from heq)] at hsome
        exact Bool.noConfusion hsome
      rw [expiryCalls_congr hother hkey] at htrace' hqueue'
      rw [List.takeWhile_cons_of_pos (by simpa using hle),
        List.dropWhile_cons_of_pos (by simpa using hle)]
      refine ⟨htimeouts', ?_, ?_, ?_, ?_⟩
      · rw [htrace', htrace]
        simp
      · rw [hqueue', hqueue]
        simp
      · intro t' ht'
        rcases List.mem_cons.mp ht' with rfl | hin
        · exact hvalid
        · obtain ⟨hlive, hdeleted, hsome⟩ := hvalid' t' hin
          have hne : (t'.status, t'.replyId) ≠ t.key := hkey t' hin
          rw [hother.entry, if_neg hne] at hsome
          exact ⟨hother.freed ▸ hlive, hother.deleted t'.status ▸ hdeleted, hsome⟩
      · intro sid id
        simp only [hentry', hother.entry, List.map_cons, List.mem_cons]
        by_cases hhead : (sid, id) = t.key
        · simp [hhead]
        · simp [hhead]

/-- The pass never reads freed memory, and never misses an entry, if no due timeout dangles. -/
theorem timeoutLoop_isSome (now : Nat) {l : List Timeout}
    (hvalid : ∀ t ∈ l.takeWhile fun t => t.at_ ≤ now, Valid s t)
    (hnodup : (l.map Timeout.key).Nodup) : (timeoutLoop now l s).isSome = true := by
  induction l generalizing s with
  | nil => rfl
  | cons t rest ih =>
    rw [timeoutLoop]
    split
    · rfl
    · have hle : t.at_ ≤ now := by omega
      rw [List.takeWhile_cons_of_pos (by simpa using hle)] at hvalid
      rw [List.map_cons, List.nodup_cons] at hnodup
      obtain ⟨s', hexpire, -, -, -, hother⟩ := expire_eq rest (hvalid t List.mem_cons_self)
      rw [hexpire]
      apply ih _ hnodup.2
      intro t' ht'
      obtain ⟨hlive', hdeleted', hentry'⟩ := hvalid t' (List.mem_cons_of_mem _ ht')
      -- The other timeouts are those of other gets.
      have hne : (t'.status, t'.replyId) ≠ t.key := fun heq =>
        hnodup.1 (List.mem_map.mpr ⟨t', (List.takeWhile_sublist _).subset ht', heq⟩)
      refine ⟨by rw [hother.freed, hlive'], by rw [hother.deleted, hdeleted'], ?_⟩
      rw [hother.entry, if_neg hne]
      exact hentry'

/-- The loop with its index goes through the same rounds. -/
theorem timeoutFor_eq (now fuel : Nat) (s : State) (hfuel : s.timeouts.length < fuel) :
    timeoutFor now fuel 0 s = timeoutLoop now s.timeouts s := by
  induction fuel generalizing s with
  | zero => omega
  | succ fuel ih =>
    rw [timeoutFor]
    cases hl : s.timeouts with
    | nil => rfl
    | cons t rest =>
      simp only [Int.toNat_zero, List.getElem?_cons_zero, timeoutLoop]
      split
      · rfl
      · cases hexpire : s.expire t rest with
        | none => simp [expireAt, hl, hexpire]
        | some s₁ =>
          obtain ⟨s₂, hexpire', hrest, -⟩ := expire_eq rest (valid_of_expire hexpire)
          obtain rfl := Option.some.inj (hexpire'.symm.trans hexpire)
          have hround : s.expireAt 0 t = some s₂ := by
            simp only [expireAt, hl, List.eraseIdx_cons_zero, List.drop_zero, hexpire,
              Option.map_some]
            rw [← hrest]
          rw [hround, Option.bind_some, Option.bind_some, show (0 : Int) - 1 + 1 = 0 by rfl, ih,
            hrest]
          rw [hl, List.length_cons] at hfuel
          rw [hrest]
          omega

/-- The calls are for the due timeouts, in their order. -/
private theorem expiryCalls_due (now : Nat) {l : List Timeout}
    (hentry : ∀ t ∈ l.takeWhile fun t => t.at_ ≤ now, (s.entry t.status t.replyId).isSome = true) :
    List.Forall₂ (fun t p => p.conn = t.conn ∧ p.event = .error ∧ ∃ context,
        s.entry t.status t.replyId = some context ∧ p.cause = .timeout t.status t.replyId context)
      (l.takeWhile fun t => t.at_ ≤ now) (s.expiryCalls now l) := by
  induction l with
  | nil => exact .nil
  | cons t rest ih =>
    rw [expiryCalls]
    by_cases hdue : now < t.at_
    · rw [if_pos hdue, List.takeWhile_cons_of_neg (by simpa using hdue)]
      exact .nil
    · have hle : t.at_ ≤ now := by omega
      rw [List.takeWhile_cons_of_pos (by simpa using hle)] at hentry ⊢
      rw [if_neg hdue]
      apply List.Forall₂.cons
      · obtain ⟨context, hcontext⟩ :=
          Option.isSome_iff_exists.mp (hentry t List.mem_cons_self)
        refine ⟨rfl, rfl, context, hcontext, ?_⟩
        rw [expiryCall, hcontext]
        rfl
      · exact ih fun t' ht' => hentry t' (List.mem_cons_of_mem _ ht')

/-- Calls observed one after the other are queued in this order. -/
private theorem queuedCalls_append (calls : List PendingCall) (t : List Obs) :
    queuedCalls ((calls.map Obs.queued).reverse ++ t) = queuedCalls t ++ calls := by
  have hcalls : calls.filterMap (Obs.queuedCall ∘ Obs.queued) = calls :=
    List.filterMap_some
  simp only [queuedCalls, List.filterMap_append, List.filterMap_reverse, List.filterMap_map, hcalls,
    List.reverse_append, List.reverse_reverse]

end State

/-- The pass that leads from `s` to `s'` ends exactly the due timeouts: for each it queues one
    error, the oldest first, and removes the entry of its get. The other timeouts stay in their
    order. -/
structure SelectsDue (s : State) (now : Nat) (s' : State) : Prop where
  calls : ∃ calls, queuedCalls s'.trace = queuedCalls s.trace ++ calls ∧
    s'.phase = .delivering (s.immediateCallbacks ++ calls) ∧
    List.Forall₂ (fun t p => p.conn = t.conn ∧ p.event = .error ∧ ∃ context,
        s.entry t.status t.replyId = some context ∧
          p.cause = .timeout t.status t.replyId context)
      (s.timeouts.filter fun t => t.at_ ≤ now) calls
  entries : ∀ sid id, s'.entry sid id =
    if (sid, id) ∈ (s.timeouts.filter fun t => t.at_ ≤ now).map Timeout.key then none
    else s.entry sid id
  timeouts : s'.timeouts = s.timeouts.filter fun t => now < t.at_

namespace State

/-- As long as the clock does not go back, the timeouts are sorted. -/
private theorem timeouts_sorted {x : State × Nat}
    (h : (machine.clocked readsClock).Reach (fun _ _ => True) x) :
    x.1.timeouts.Pairwise (·.at_ ≤ ·.at_) := by
  suffices hs : Sorted x.2 x.1 from hs.sorted
  apply h.clocked_invariant Sorted
  · exact ⟨List.Pairwise.nil, fun t ht => absurd ht List.not_mem_nil⟩
  · intro n n' s hle hs
    refine ⟨hs.sorted, fun t ht => ?_⟩
    have hbound := hs.bound t ht
    omega
  · intro n s i s' hs hread hstep
    exact sorted_step hs hread hstep

/-- A pass over timeouts of distinct pending gets goes through exactly if no conn of a due one
    was freed. -/
private theorem timeoutPass_isSome_iff {s : State} (now : Nat)
    (hsorted : s.timeouts.Pairwise (·.at_ ≤ ·.at_)) (hnodup : (s.timeouts.map Timeout.key).Nodup)
    (hpending : ∀ t ∈ s.timeouts, (s.status t.status).deleted = false ∧
      t.replyId ∈ (s.status t.status).replyContexts) :
    (s.timeoutPass now).isSome = true ↔
      ∀ t ∈ s.timeouts, t.at_ ≤ now → s.freed t.conn = false := by
  have hdue := List.takeWhile_le_eq_filter hsorted now
  rw [timeoutPass, Option.isSome_map]
  constructor
  · intro hsome t ht hle
    obtain ⟨s', hloop⟩ := Option.isSome_iff_exists.mp hsome
    obtain ⟨-, -, -, hvalid, -⟩ := timeoutLoop_spec rfl hloop
    rw [hdue] at hvalid
    exact (hvalid t (List.mem_filter.mpr ⟨ht, by simpa using hle⟩)).1
  · intro hlive
    apply timeoutLoop_isSome now _ hnodup
    intro t ht
    rw [hdue, List.mem_filter, decide_eq_true_eq] at ht
    obtain ⟨hdeleted, hentry⟩ := hpending t ht.1
    exact ⟨hlive t ht.1 ht.2, hdeleted, AList.lookup_isSome.mpr hentry⟩

/-- A pass over sorted timeouts that goes through ends exactly the due ones. -/
private theorem selectsDue_of_pass {s s' : State} {now : Nat}
    (hsorted : s.timeouts.Pairwise (·.at_ ≤ ·.at_))
    (hpending : ∀ t ∈ s.timeouts, (s.status t.status).deleted = false ∧
      t.replyId ∈ (s.status t.status).replyContexts)
    (hpass : s.timeoutPass now = some s') : SelectsDue s now s' := by
  have hdue := List.takeWhile_le_eq_filter hsorted now
  obtain ⟨s₁, hloop, rfl⟩ := Option.map_eq_some_iff.mp hpass
  obtain ⟨htimeouts, htrace, hqueue, -, hentries⟩ := timeoutLoop_spec rfl hloop
  rw [List.dropWhile_le_eq_filter hsorted] at htimeouts
  rw [hdue] at hentries
  refine ⟨⟨s.expiryCalls now s.timeouts, ?_, ?_, ?_⟩, hentries, htimeouts⟩
  · show queuedCalls s₁.trace = _
    rw [htrace, queuedCalls_append]
  · rw [hqueue]
  · rw [← hdue]
    apply expiryCalls_due
    intro t ht
    exact AList.lookup_isSome.mpr (hpending t ((List.takeWhile_sublist _).subset ht)).2

end State

/-- As long as the clock does not go back the timeouts are sorted. One pass over timeouts that
    are sorted and belong to distinct pending gets ends exactly the due ones if and only if no
    conn of a due timeout was freed, and does not go through otherwise. -/
theorem timeouts_selected (s : State) (now : Nat) :
    (∀ clock, (machine.clocked readsClock).Reach (fun _ _ => True) (s, clock) →
      s.timeouts.Pairwise (·.at_ ≤ ·.at_)) ∧
    (s.timeouts.Pairwise (·.at_ ≤ ·.at_) → (s.timeouts.map Timeout.key).Nodup →
      (∀ t ∈ s.timeouts, (s.status t.status).deleted = false ∧
        t.replyId ∈ (s.status t.status).replyContexts) →
      State.timeoutFor now (s.timeouts.length + 1) 0 s = State.timeoutLoop now s.timeouts s ∧
      ((∃ s', s.timeoutPass now = some s' ∧ SelectsDue s now s') ↔
        ∀ t ∈ s.timeouts, t.at_ ≤ now → s.freed t.conn = false) ∧
      ((∃ t ∈ s.timeouts, t.at_ ≤ now ∧ s.freed t.conn = true) → s.timeoutPass now = none)) := by
  refine ⟨fun clock h => State.timeouts_sorted h, fun hsorted hnodup hpending => ?_⟩
  have hpass := State.timeoutPass_isSome_iff now hsorted hnodup hpending
  refine ⟨State.timeoutFor_eq now _ s (Nat.lt_succ_self _), ⟨?_, ?_⟩, ?_⟩
  · rintro ⟨s', hs', -⟩
    exact hpass.mp (by rw [hs']; rfl)
  · intro hlive
    obtain ⟨s', hs'⟩ := Option.isSome_iff_exists.mp (hpass.mpr hlive)
    exact ⟨s', hs', State.selectsDue_of_pass hsorted hpending hs'⟩
  · rintro ⟨t, ht, hle, hfreed⟩
    rw [← Option.not_isSome_iff_eq_none, hpass]
    intro hlive
    exact absurd (hfreed.symm.trans (hlive t ht hle)) Bool.noConfusion

/-- Two gets are pending, sent at the times 0 and 5. -/
def twoGets : State :=
  { conn := fun _ => { remoteAddress := ⟨1, 1, .udp⟩ }
    status := fun _ =>
      { remoteAddress := ⟨1, 1, .udp⟩
        replyContexts := ((∅ : ReplyContexts).insert 1 7).insert 2 9 }
    timeouts := [⟨State.udpTimeout, 0, 0, 1⟩, ⟨State.udpTimeout + 5, 0, 0, 2⟩]
    phase := .timing }

/-- At the time at which the first get is overdue, it alone is ended. -/
theorem timeouts_selected_first :
    ∃ s', twoGets.timeoutPass State.udpTimeout = some s' ∧
      s'.timeouts = [⟨State.udpTimeout + 5, 0, 0, 2⟩] := by
  obtain ⟨-, hselects, -⟩ := (timeouts_selected twoGets State.udpTimeout).2 (by decide +kernel)
    (by decide +kernel) (by decide +kernel)
  obtain ⟨s', hs', hdue⟩ := hselects.mpr (by decide +kernel)
  exact ⟨s', hs', hdue.timeouts⟩

/-- A get on a udp conn whose datagram is refused. The conn is freed after the callback for the
    error, and the timeout of the get stays. -/
def refusedGet : List Input :=
  [.app (.connect ['u', 'd', 'p', ':', '/', '/', '1', '.', '2', '.', '3', '.', '4', ':', '8', '0']
      0 null { socket := .ok 3 }),
    .runloop .nothing, .timeouts 0, .deliver {}, .ret, .deliver {}, .app (.get 0 [65] 7 0 {}),
    .runloop (.ready [{ pollerr := true }]), .visit (some .connRefused), .endPoll, .timeouts 0,
    .deliver {}, .ret, .deliver {}, .runloop .nothing]

/-- The timeouts are sorted and belong to distinct pending gets, one of them is due, and the
    pass does not go through. -/
def failsPass (s : State × Nat) : Bool :=
  decide (s.1.timeouts.Pairwise (·.at_ ≤ ·.at_) ∧ (s.1.timeouts.map Timeout.key).Nodup ∧
    (∀ t ∈ s.1.timeouts, (s.1.status t.status).deleted = false ∧
      t.replyId ∈ (s.1.status t.status).replyContexts) ∧
    s.2 ≤ State.udpTimeout ∧ (∃ t ∈ s.1.timeouts, t.at_ ≤ State.udpTimeout) ∧
    s.1.phase = .timing) && (s.1.timeoutPass State.udpTimeout).isNone

/-- The pass that comes to the timeout of a refused get does not go through, although the
    timeouts are sorted and belong to distinct pending gets. -/
theorem timeouts_not_selected :
    ∃ s : State × Nat, (machine.clocked readsClock).Reach (fun _ _ => True) s ∧
      s.1.timeouts.Pairwise (·.at_ ≤ ·.at_) ∧ (s.1.timeouts.map Timeout.key).Nodup ∧
      (∀ t ∈ s.1.timeouts, (s.1.status t.status).deleted = false ∧
        t.replyId ∈ (s.1.status t.status).replyContexts) ∧
      ∃ now, s.2 ≤ now ∧ (∃ t ∈ s.1.timeouts, t.at_ ≤ now) ∧ s.1.phase = .timing ∧
        s.1.timeoutPass now = none := by
  obtain ⟨s, hreach, hview⟩ := (machine.clocked readsClock).exists_reach_of_run
    (fun _ _ => true) (fun _ _ _ => trivial) refusedGet failsPass true (by decide +kernel)
  obtain ⟨⟨hsorted, hnodup, hpending, hclock, hdue, hphase⟩, hpass⟩ :=
    (Bool.and_eq_true_iff.mp hview).imp_left of_decide_eq_true
  exact ⟨s, hreach, hsorted, hnodup, hpending, State.udpTimeout, hclock, hdue, hphase,
    Option.isNone_iff_eq_none.mp hpass⟩

end Msgbox
