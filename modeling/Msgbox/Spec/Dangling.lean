import Msgbox.Spec.Dropping
import Msgbox.Spec.Queue
import Msgbox.Spec.Expiry

/-!
# Timeouts do not dangle

A timeout points to a conn, to a status and, with its reply id, to an entry of that status.
Nothing that drops a conn or a status looks at the timeouts, so it is up to the application
and the peer not to let that happen while gets are pending.

## Key results

- `keepsTimeouts`: the steps that take nothing away from a timeout
- `timeouts_valid`: in runs of such steps no timeout dangles, and no assertion fails
-/

namespace Msgbox

/-- The step frees no conn and deletes no status that a timeout names. -/
def keepsNamed (s : State) (i : Input) : Bool :=
  s.timeouts.all fun t =>
    i.freeTarget s ≠ some t.conn &&
      (i.dropTarget s).all fun c => s.statusOfConn c ≠ some t.status

/-- A get that is sent is not for a conn that is to be freed. -/
def getsLive (s : State) : Input → Bool
  | .app (.get c payload _ _ w) =>
    (s.statusOfConn c).isNone || s.getFails c payload w || !s.freeing c
  | _ => true

/-- Gets that are sent have distinct ids while they are pending, are for conns that stay, and
    are not pending when their conn is to be freed or their status is deleted. Gets may fail. -/
def keepsTimeouts (s : State) (i : Input) : Bool :=
  distinctIds s i && keepsNamed s i && getsLive s i

/-- The conns and statuses of timeouts are there. -/
structure Attached (s : State) : Prop where
  live : ∀ t ∈ s.timeouts, s.freeing t.conn = false
  filed : ∀ t ∈ s.timeouts, ∃ a, s.connStatus.lookup a = some t.status

namespace State

variable {s₀ s s' : State} {i : Input}

/-! ## One effect -/

private theorem attached_of_eq (h : Attached s) (htimeouts : s'.timeouts ⊆ s.timeouts)
    (hfreeing : ∀ c, s'.freeing c = s.freeing c)
    (hlookup : ∀ a sid, s.connStatus.lookup a = some sid → s'.connStatus.lookup a = some sid) :
    Attached s' where
  live t ht := by
    rw [hfreeing]
    exact h.live t (htimeouts ht)
  filed t ht := by
    obtain ⟨a, ha⟩ := h.filed t (htimeouts ht)
    exact ⟨a, hlookup a _ ha⟩

private theorem attached_effect (hok : keepsTimeouts s₀ i = true) (h : Attached s)
    (heffect : Effect s₀ i s s') : Attached s' := by
  have hfreeing := effect_freeing heffect
  cases heffect with
  | early hearly =>
    cases hearly with
    | @ready c hlisted hsees hnew =>
      refine attached_of_eq h (List.Subset.refl _) hfreeing (fun a sid hlookup => ?_)
      refine AList.lookup_insert_eq_some.mpr (.inr ⟨?_, hlookup⟩)
      -- No status was filed under the address of the new one.
      rintro rfl
      exact nomatch hlookup.symm.trans hnew
    | _ => exact attached_of_eq h (List.Subset.refl _) hfreeing (fun _ _ hl => hl)
  | @get c payload context now w sid o hcalls ho hstart hsid hsent =>
    refine ⟨fun t ht => ?_, fun t ht => ?_⟩
    · rw [hfreeing]
      rcases List.mem_append.mp ht with hold | hnew
      · exact h.live t hold
      · rw [List.mem_singleton.mp hnew]
        subst hstart
        have hsid₀ : s₀.statusOfConn c = some sid := hsid
        simp only [keepsTimeouts, Bool.and_eq_true] at hok
        have hgets := hok.2
        rw [hcalls.input] at hgets
        simp only [getsLive, hsid₀, hsent, Option.isNone_some, Bool.false_or,
          Bool.not_eq_true'] at hgets
        exact (freeing_eq (queuedCalls_cons (calls_of_isNote ho).1 _) c).trans hgets
    · rcases List.mem_append.mp ht with hold | hnew
      · exact h.filed t hold
      · rw [List.mem_singleton.mp hnew]
        exact ⟨_, hsid⟩
  | expire _ _ htimeouts =>
    refine attached_of_eq h (fun t ht => ?_) hfreeing (fun _ _ hl => hl)
    rw [htimeouts]
    exact List.mem_cons_of_mem _ ht
  | removal =>
    obtain ⟨index, heq⟩ := removalPass_eq s
    rw [heq] at hfreeing ⊢
    exact attached_of_eq h (List.Subset.refl _) hfreeing (fun _ _ hl => hl)
  | call =>
    rw [makeCall_eq] at hfreeing ⊢
    exact attached_of_eq h (List.Subset.refl _) hfreeing (fun _ _ hl => hl)
  | finish =>
    rw [finishCall_eq] at hfreeing ⊢
    exact attached_of_eq h (List.Subset.refl _) hfreeing (fun _ _ hl => hl)
  | _ => exact attached_of_eq h (List.Subset.refl _) hfreeing (fun _ _ hl => hl)

private theorem keepsNamed_conn (hok : keepsTimeouts s₀ i = true) {t : Timeout}
    (ht : t ∈ s₀.timeouts) :
    i.freeTarget s₀ ≠ some t.conn := by
  simp only [keepsTimeouts, keepsNamed, Bool.and_eq_true, List.all_eq_true,
    decide_eq_true_eq] at hok
  exact (hok.1.2 t ht).1

private theorem keepsNamed_status (hok : keepsTimeouts s₀ i = true) {t : Timeout}
    (ht : t ∈ s₀.timeouts)
    {c : ConnId} (hc : i.dropTarget s₀ = some c) : s₀.statusOfConn c ≠ some t.status := by
  simp only [keepsTimeouts, keepsNamed, Bool.and_eq_true, List.all_eq_true,
    decide_eq_true_eq] at hok
  have hall := (hok.1.2 t ht).2
  rw [hc] at hall
  simpa using hall

private theorem attached_final (hok : keepsTimeouts s₀ i = true) (hs₀ : Sound s₀) (hs : Sound s)
    (h : Attached s) (hfinal : Final s₀ i s s') : Attached s' := by
  cases hfinal with
  | handled =>
    exact attached_of_eq h (List.Subset.refl _) (freeing_queue_nothing (by rfl)) (fun _ _ hl => hl)
  | matched =>
    exact attached_of_eq h (fun t ht => List.mem_of_mem_eraseP ht) (freeing_queue_nothing (by rfl))
      (fun _ _ hl => hl)
  | unmatched =>
    refine attached_of_eq h (List.Subset.refl _) (fun c => ?_) (fun _ _ hl => hl)
    rw [freeing_queue (queuedCalls_queued _ s.trace),
      PendingCall.frees_eq_false (fun _ heq => ToFree.noConfusion heq), Bool.or_false]
  | @drop c event ph hearly hdrops =>
    have htimeouts := early_timeouts hearly
    have hframe : ({ s.localDisconnect c event with phase := ph } : State).timeouts =
      s.timeouts := by
      simp
    refine ⟨fun t ht => ?_, fun t ht => ?_⟩
    · rw [hframe] at ht
      have hfrees : { s.localDisconnect c event with phase := ph }.freeing t.conn =
          (s.freeing t.conn || (s.closingCall c event).frees t.conn) := by
        refine freeing_queue ?_ _
        show queuedCalls (s.localDisconnect c event).trace = _
        rw [localDisconnect_trace, queuedCalls_queued]
      rw [hfrees, h.live t ht, Bool.false_or, Bool.eq_false_iff]
      intro hfree
      have hudp : s.isListeningUdp c = false := by
        rw [Bool.eq_false_iff]
        intro hudp
        simp [PendingCall.frees, closingCall, hudp] at hfree
      have hconn := own_closingCall s c event _ hfree
      refine keepsNamed_conn hok (htimeouts ▸ ht) ?_
      rw [hconn]
      exact freeTarget_of_drops hdrops hearly hudp
    · rw [hframe] at ht
      obtain ⟨a, ha⟩ := h.filed t ht
      refine ⟨a, ?_⟩
      show (s.localDisconnect c event).connStatus.lookup a = some t.status
      rw [localDisconnect_connStatus, AList.lookup_erase_eq_some]
      refine ⟨?_, ha⟩
      rintro rfl
      -- The status of the dropped conn is not that of a timeout, whether it is new or not.
      rcases (early_lookup hearly).2 _ _ ha with hold | hnew
      · rw [early_remoteAddress hearly] at hold
        exact keepsNamed_status hok (htimeouts ▸ ht) hdrops.target hold
      · exact absurd (hs₀.allocated.timeouts t (htimeouts ▸ ht)).2 (Nat.not_lt.mpr hnew)
  | @refuse c index soError msg hvisits hstart hpollerr herror =>
    subst hstart
    refine ⟨fun t ht => ?_, h.filed⟩
    rw [freeing_queue (queuedCalls_queued _ s.trace), h.live t ht, Bool.false_or, Bool.eq_false_iff]
    intro hfree
    have hconn : t.conn = c := (PendingCall.frees_iff (c := c) rfl).mp hfree
    refine keepsNamed_conn hok ht ?_
    rw [hvisits.input, Input.freeTarget, Input.refuseTarget, hvisits.phase]
    dsimp only
    rw [if_pos ⟨hpollerr, herror⟩, hconn]
    exact hvisits.listed
  | @fail k msg hopens hconn =>
    refine ⟨fun t ht => ?_, h.filed⟩
    have hne : t.conn ≠ s.nextConn := Nat.ne_of_lt (hs.allocated.timeouts t ht).1
    rw [freeing_queue (s := s.allocConn k) (queuedCalls_queued _ _),
      freeing_eq (queuedCalls_cons rfl _), h.live t ht, Bool.false_or, Bool.eq_false_iff]
    exact fun hfree => hne ((PendingCall.frees_iff (c := s.nextConn) rfl).mp hfree)

end State

/-- In runs that keep timeouts, what timeouts name is there. -/
theorem reach_attached {s : State}
    (h : machine.Reach (fun s i => keepsTimeouts s i = true) s) :
    Sound s ∧ Attached s ∧ Resolving s := by
  have hok : ∀ {s : State} {i : Input}, keepsTimeouts s i = true → distinctIds s i = true := by
    intro s i hok
    simp only [keepsTimeouts, Bool.and_eq_true] at hok
    exact hok.1.1
  have hstart : machine.Reach (fun s i => distinctIds s i = true) machine.init := .init
  refine reach_sound_invariant (fun s => Attached s ∧ Resolving s) ?_ ?_ ?_ h
  · refine ⟨⟨?_, ?_⟩, reach_resolving hstart⟩
    · exact fun _ ht => absurd ht List.not_mem_nil
    · exact fun _ ht => absurd ht List.not_mem_nil
  · rintro s₀ s s' i hkeeps hs₀ - hsteps hs ⟨ha, hr⟩ heffect
    have hchange := State.effect_getChange hr.fresh heffect
    exact ⟨State.attached_effect hkeeps ha heffect,
      State.resolving_change (hok hkeeps) hs.allocated hr hchange⟩
  · rintro s₀ s s' i hkeeps hs₀ - hsteps hs ⟨ha, hr⟩ hfinal
    have hchange := State.final_getChange hfinal
    exact ⟨State.attached_final hkeeps hs₀ hs ha hfinal,
      State.resolving_change (hok hkeeps) hs.allocated hr hchange⟩

/-- A status without timeouts has entries only of gets that failed. -/
private theorem entries_eq_nil_iff {s : State} (hr : Resolving s) {sid : StatusId}
    (h : ∀ t ∈ s.timeouts, t.status ≠ sid) :
    (s.status sid).replyContexts.keys = [] ↔
      ∀ id context, pendingGet s.trace sid id ≠ some (context, false) := by
  have hkey : ∀ id, id ∈ (s.status sid).replyContexts.keys ↔
      (pendingGet s.trace sid id).isSome = true := by
    intro id
    rw [← AList.mem_keys, ← AList.lookup_isSome, ← Option.isSome_map (f := Prod.fst),
      ← hr.entry sid id]
    rfl
  rw [List.eq_nil_iff_forall_not_mem]
  constructor
  · intro hnil id context hpending
    exact hnil id ((hkey id).mpr (by rw [hpending]; rfl))
  · intro hnone id hid
    obtain ⟨⟨context, sent⟩, hpending⟩ := Option.isSome_iff_exists.mp ((hkey id).mp hid)
    cases sent with
    | false => exact hnone id context hpending
    | true =>
      obtain ⟨t, ht, hfor⟩ := List.any_eq_true.mp (hr.sent sid id context hpending)
      have hstatus := (Timeout.isFor_iff t).mp hfor
      injection hstatus with hstatus
      exact h t ht hstatus

/-- In every run whose steps keep timeouts: what each timeout names is there, so the timeout
    pass goes through, and a status that a step deletes has no entries, unless a get on it
    failed and its entry is still there. -/
theorem timeouts_valid {s : State}
    (h : machine.Reach (fun s i => keepsTimeouts s i = true) s) :
    (∀ t ∈ s.timeouts, s.freed t.conn = false ∧ s.freeing t.conn = false ∧
      (∃ a, s.connStatus.lookup a = some t.status) ∧
      t.replyId ∈ (s.status t.status).replyContexts) ∧
    (∀ now, (s.timeoutPass now).isSome = true) ∧
    (∀ i c sid, keepsTimeouts s i = true → i.dropTarget s = some c →
      s.statusOfConn c = some sid →
        ((s.status sid).replyContexts.keys = [] ↔
          ∀ id context, pendingGet s.trace sid id ≠ some (context, false))) := by
  obtain ⟨hs, ha, hr⟩ := reach_attached h
  -- A freed conn was first marked to be freed, and no timeout's conn is.
  have hlive : ∀ t ∈ s.timeouts, s.freed t.conn = false := by
    intro t ht
    rw [Bool.eq_false_iff]
    intro hfreed
    have hfreeing := hs.freed t.conn hfreed
    rw [ha.live t ht] at hfreeing
    exact Bool.noConfusion hfreeing
  refine ⟨fun t ht => ⟨hlive t ht, ha.live t ht, ha.filed t ht, ?_⟩, fun now => ?_, ?_⟩
  · exact AList.lookup_isSome.mp (hr.timeouts t ht)
  · rw [State.timeoutPass, Option.isSome_map]
    refine State.timeoutLoop_isSome now (fun t hdue => ?_) hr.nodup
    have ht : t ∈ s.timeouts := (List.takeWhile_sublist _).subset hdue
    refine ⟨hlive t ht, ?_, hr.timeouts t ht⟩
    -- The status is still in the table, so it was not deleted.
    obtain ⟨a, ha⟩ := ha.filed t ht
    exact (hs.allocated.status a _ ha).2.2
  · intro i c sid hok hdrop hsid
    refine entries_eq_nil_iff hr (fun t ht heq => ?_)
    exact State.keepsNamed_status hok ht hdrop (heq ▸ hsid)

/-- A get on the connection of `connectRun`. -/
def getRun : List Input := connectRun ++ [.app (.get 0 [1] 7 0 {})]

/-- While a get is pending its timeout is valid. -/
theorem timeouts_valid_pending :
    ∃ s, machine.Reach (fun s i => keepsTimeouts s i = true) s ∧
      s.timeouts = [⟨State.udpTimeout, 0, 0, 1⟩] ∧ s.freeing 0 = false ∧
        (1 : UInt16) ∈ (s.status 0).replyContexts := by
  obtain ⟨s, hreach, hview⟩ := machine.exists_reach_of_run keepsTimeouts (fun _ _ h => h) getRun
    (fun s => s.timeouts) [⟨State.udpTimeout, 0, 0, 1⟩] (by decide +kernel)
  have ht : ⟨State.udpTimeout, 0, 0, 1⟩ ∈ s.timeouts := by
    rw [hview]
    exact List.mem_cons_self
  obtain ⟨-, hfreeing, -, hentry⟩ := (timeouts_valid hreach).1 _ ht
  exact ⟨s, hreach, hview, hfreeing, hentry⟩

/-- After `msg_disconnect` the timeout of a pending get names a conn that is to be freed, and
    the deleted status has entries. -/
theorem timeouts_not_valid :
    ∃ s, machine.Reach (fun _ _ => True) s ∧ s.timeouts = [⟨State.udpTimeout, 0, 0, 1⟩] ∧
      s.freeing 0 = true ∧ (s.status 0).deleted = true ∧
        (s.status 0).replyContexts.keys = [1] := by
  obtain ⟨s, hreach, hview⟩ := machine.exists_reach_of_run (P := fun _ _ => True)
    (fun _ _ => true) (fun _ _ _ => trivial) (getRun ++ [.app (.disconnect 0 {})])
    (fun s => (s.timeouts, s.freeing 0, (s.status 0).deleted, (s.status 0).replyContexts.keys))
    ([⟨State.udpTimeout, 0, 0, 1⟩], true, true, [1]) (by decide +kernel)
  simp only [Prod.mk.injEq] at hview
  exact ⟨s, hreach, hview⟩

end Msgbox
