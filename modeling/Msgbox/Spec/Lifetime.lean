import Msgbox.Spec.Queue

/-!
# A conn is freed once, after its last call

A conn that is to be freed is marked for removal, so the run loop does not come back to it.
What can still queue a call for it is the application, a timeout, or a removal pass that is
not exact; a nested `msg_runloop` can deliver calls out of order.

## Key results

- `Marked`: the listed conns that are to be freed are exactly the marked ones
- `conn_freed_once`: no call for a conn is queued, made or waits after the one that frees it
-/

namespace Msgbox

open SwapRemove

/-- The application does not call for a conn for which a call that frees it was queued, so
    that an error or another close would be queued; no get of such a conn is overdue; the
    removal passes are exact; and no call that frees a conn is made in a nested `msg_runloop`
    while an outer one still has calls for the conn. -/
def respectsClosing (s : State) : Input → Bool
  | .app (.disconnect c _) => !s.freeing c
  | .app (.unlisten (some c) _) => !s.freeing c
  | .app (.send c payload w) => !s.sendFails c (s.sendFrame c payload) w || !s.freeing c
  | .app (.get c payload _ _ w) => !s.getFails c payload w || !s.freeing c
  | .runloop _ => removableCheck s.conns.length s.removals
  | .endPoll => removableCheck s.conns.length s.removals
  | .timeouts now => (s.timeouts.takeWhile fun t => t.at_ ≤ now).all fun t => !s.freeing t.conn
  | .deliver _ =>
    match s.phase with
    | .delivering (p :: _) =>
      !p.frees p.conn || (s.stack.reverse.flatMap Frame.rest).all fun q => q.conn ≠ p.conn
    | _ => true
  | _ => true

/-- Conns that are to be freed are not listed or marked, and no others are marked. -/
structure Marked (s : State) : Prop where
  listed : ∀ c < s.nextConn, s.freeing c = false → c ∈ s.conns
  marked : ∀ c ∈ s.conns, (s.freeing c = true ↔ (s.conn c).index ∈ s.removals)
  nodup : s.removals.Nodup
  bound : ∀ r ∈ s.removals, r < s.conns.length

/-- The first call is not followed by one for a conn that it frees. -/
def Precedes (p q : PendingCall) : Prop := p.frees q.conn = false

/-- Calls for a conn come before the one that frees it. -/
structure Ordered (s : State) : Prop where
  queued : (queuedCalls s.trace).Pairwise Precedes
  pending : s.pending.Sublist (queuedCalls s.trace)
  called : (calledCalls s.trace).Pairwise Precedes
  waiting : ∀ p ∈ calledCalls s.trace, ∀ q ∈ s.pending, Precedes p q
  running : ∀ p ∈ s.running, p ∈ calledCalls s.trace
  freed : ∀ c, s.freed c = true → ∃ p ∈ calledCalls s.trace, p.frees c = true

namespace State

variable {s₀ s s' : State} {i : Input}

/-! ## Marked conns -/

/-- Marks stay right where neither conns nor closing calls change. -/
private theorem marked_of_eq (h : Marked s) (hconns : s'.conns = s.conns)
    (hremovals : s'.removals = s.removals) (hnext : s'.nextConn = s.nextConn)
    (hindex : ∀ c ∈ s.conns, (s'.conn c).index = (s.conn c).index)
    (hfreeing : ∀ c, s'.freeing c = s.freeing c) : Marked s' where
  listed c hc hf := by
    rw [hconns]
    exact h.listed c (hnext ▸ hc) (hfreeing c ▸ hf)
  marked c hc := by
    rw [hconns] at hc
    rw [hfreeing, hindex c hc, hremovals]
    exact h.marked c hc
  nodup := hremovals ▸ h.nodup
  bound := by
    rw [hremovals, hconns]
    exact h.bound

/-- A step that respects closing is about conns that are not to be freed. -/
private theorem concerns_not_freeing (hok : respectsClosing s i = true) (hs : Sound s)
    (h : Marked s) {c : ConnId} (hconcerns : i.Concerns s c) : s.freeing c = false := by
  -- A listed conn about to be freed is a marked one.
  have hunmarked : c ∈ s.conns → (s.conn c).index ∉ s.removals → s.freeing c = false := by
    intro hlisted hindex
    rw [Bool.eq_false_iff]
    exact fun hf => hindex ((h.marked c hlisted).mp hf)
  cases hconcerns with
  | reports hreports =>
    cases hreports with
    | read hreads => exact hunmarked hreads.mem_conns (hreads.unmarked hs.tabled)
    -- What the app asks for is checked by the condition itself.
    | disconnect hcalls =>
      rw [hcalls.input] at hok
      simpa [respectsClosing] using hok
    | unlisten hcalls =>
      rw [hcalls.input] at hok
      simpa [respectsClosing] using hok
    | send hcalls hfails =>
      rw [hcalls.input] at hok
      simpa [respectsClosing, hfails] using hok
    | get hcalls hfails =>
      rw [hcalls.input] at hok
      simpa [respectsClosing, hfails] using hok
  | visits hvisits =>
    exact hunmarked (List.mem_of_getElem? hvisits.listed) (hvisits.unmarked hs.tabled)
  | due hinput hdue hconn =>
    -- A due get has its conn among those the condition looks at.
    rw [hinput] at hok
    have hall := List.all_eq_true.mp hok _ hdue
    rw [hconn] at hall
    simpa using hall
  | opened hnew => exact freeing_nextConn hs hnew.ge

/-- A new conn is not marked, and nothing is queued to free it. -/
private theorem marked_opened (hs : Sound s) (h : Marked s) {k : Conn} {contents : Socket}
    (hindex : k.index = s.conns.length) :
    Marked ((((s.openDescriptor k.socket contents).allocConn k).addToConns s.nextConn).addToPollFds
      k.socket) := by
  have hfreeing : ∀ c, ((((s.openDescriptor k.socket contents).allocConn k).addToConns
      s.nextConn).addToPollFds k.socket).freeing c =
      s.freeing c := fun c => freeing_eq (queuedCalls_cons rfl _) c
  refine ⟨fun c hc hf => ?_, fun c hc => ?_, h.nodup, fun r hr => ?_⟩
  · rw [hfreeing] at hf
    rcases Nat.lt_succ_iff_lt_or_eq.mp hc with hlt | heq
    · exact List.mem_append_left _ (h.listed c hlt hf)
    · rw [heq]
      exact List.mem_append_right _ List.mem_cons_self
  · rw [hfreeing]
    rcases List.mem_append.mp hc with hold | hnew
    · have hne : c ≠ s.nextConn := Nat.ne_of_lt (hs.allocated.conns c hold)
      rw [show ((((s.openDescriptor k.socket contents).allocConn k).addToConns
        s.nextConn).addToPollFds k.socket).conn c = s.conn c from Function.update_of_ne hne _ _]
      exact h.marked c hold
    · obtain rfl := List.mem_singleton.mp hnew
      rw [freeing_nextConn hs (Nat.le_refl _)]
      have hself : (((((s.openDescriptor k.socket contents).allocConn k).addToConns
          s.nextConn).addToPollFds k.socket).conn s.nextConn).index =
          s.conns.length := by simp [hindex]
      rw [hself]
      -- The new position is past every recorded one.
      exact ⟨fun hf => Bool.noConfusion hf, fun hmem => absurd (h.bound _ hmem) (Nat.lt_irrefl _)⟩
  · have hlt := h.bound r hr
    simp only [addToPollFds_conns, addToConns_conns, allocConn_conns, openDescriptor_conns,
      List.length_append,
      List.length_singleton]
    omega

/-- A removal pass takes the marks and the marked conns away together. -/
private theorem marked_removal (hs : Sound s) (h : Marked s)
    (hok : removableCheck s.conns.length s.removals = true) : Marked s.removalPass := by
  have hlands := removable_of_check hok
  have hexact := (mem_foldl_swapRemove_iff hs.tabled.nodup h.nodup h.bound).mpr hlands
  obtain ⟨index, heq⟩ := removalPass_eq s
  have hfreeing : ∀ c, s.removalPass.freeing c = s.freeing c := by
    intro c
    rw [heq]
    rfl
  -- What is left is what was not marked.
  have hleft : ∀ c, c ∈ s.removalPass.conns ↔ c ∈ s.conns ∧ s.freeing c = false := by
    intro c
    rw [removalPass_conns, hexact]
    constructor
    · rintro ⟨p, hp, hnot⟩
      have hc := List.mem_of_getElem? hp
      refine ⟨hc, ?_⟩
      rw [Bool.eq_false_iff]
      intro hf
      have hin := (h.marked c hc).mp hf
      rw [hs.tabled.index hp] at hin
      exact hnot hin
    · rintro ⟨hc, hf⟩
      obtain ⟨p, hp⟩ := List.mem_iff_getElem?.mp hc
      refine ⟨p, hp, fun hin => ?_⟩
      rw [← hs.tabled.index hp, ← h.marked c hc, hf] at hin
      exact Bool.noConfusion hin
  have hnext : s.removalPass.nextConn = s.nextConn := by rw [heq]
  have hremovals : s.removalPass.removals = [] := rfl
  refine ⟨fun c hc hf => ?_, fun c hc => ?_, ?_, ?_⟩
  · rw [hfreeing] at hf
    rw [hnext] at hc
    exact (hleft c).mpr ⟨h.listed c hc hf, hf⟩
  · rw [hfreeing, ((hleft c).mp hc).2, hremovals]
    exact ⟨fun hf => Bool.noConfusion hf, fun hmem => absurd hmem List.not_mem_nil⟩
  · rw [hremovals]
    exact List.nodup_nil
  · rw [hremovals]
    exact fun r hr => absurd hr List.not_mem_nil

/-- Every effect keeps the marks right. -/
private theorem marked_effect (hok : respectsClosing s₀ i = true) (hs : Sound s) (h : Marked s)
    (heffect : Effect s₀ i s s') : Marked s' := by
  have hfreeing := effect_freeing heffect
  cases heffect with
  | early hearly =>
    cases hearly with
    | header => exact marked_of_eq h rfl rfl rfl (fun c _ => update_index (by rfl) c) hfreeing
    | unflag => exact marked_of_eq h rfl rfl rfl (fun c _ => update_index (by rfl) c) hfreeing
    | _ => exact marked_of_eq h rfl rfl rfl (fun _ _ => rfl) hfreeing
  | oneWay => exact marked_of_eq h rfl rfl rfl (fun c _ => update_index (by rfl) c) hfreeing
  | datagram => exact marked_of_eq h rfl rfl rfl (fun c _ => update_index (by rfl) c) hfreeing
  | opened k _ _ _ _ _ hindex => exact marked_opened hs h hindex
  | context => exact marked_of_eq h rfl rfl rfl (fun c _ => update_index (by rfl) c) hfreeing
  | address => exact marked_of_eq h rfl rfl rfl (fun c _ => update_index (by rfl) c) hfreeing
  | expire => exact marked_of_eq h rfl rfl rfl (fun c _ => update_index (by rfl) c) hfreeing
  -- The pass takes the marked conns off the list.
  | removal hinput hstart =>
    subst hstart
    refine marked_removal hs h ?_
    rcases hinput with rfl | ⟨p, rfl⟩
    · exact hok
    · exact hok
  | @call call rest junk =>
    rw [makeCall_eq] at hfreeing ⊢
    obtain ⟨-, -, -, hindex⟩ := loaded_fields s call junk
    exact marked_of_eq h rfl rfl rfl (fun c _ => update_index hindex c) hfreeing
  | finish =>
    rw [finishCall_eq] at hfreeing ⊢
    exact marked_of_eq h rfl rfl rfl (fun _ _ => rfl) hfreeing
  | _ => exact marked_of_eq h rfl rfl rfl (fun _ _ => rfl) hfreeing

/-- A conn that was not to be freed is marked. -/
private theorem marked_discard (hs : Sound s) (h : Marked s) {c : ConnId} (hlisted : c ∈ s.conns)
    (hlive : s.freeing c = false) (hconns : s'.conns = s.conns) (hnext : s'.nextConn = s.nextConn)
    (hconn : s'.conn = s.conn) (hremovals : s'.removals = s.removals ++ [(s.conn c).index])
    (hfreeing : ∀ c', s'.freeing c' = true ↔ s.freeing c' = true ∨ c' = c) : Marked s' := by
  have hnot : (s.conn c).index ∉ s.removals := by
    intro hmem
    rw [← h.marked c hlisted, hlive] at hmem
    exact Bool.noConfusion hmem
  obtain ⟨p, hp⟩ := List.mem_iff_getElem?.mp hlisted
  refine ⟨fun c' hc' hf => ?_, fun c' hc' => ?_, ?_, fun r hr => ?_⟩
  · rw [hconns]
    refine h.listed c' (hnext ▸ hc') ?_
    rw [Bool.eq_false_iff] at hf ⊢
    exact fun hold => hf ((hfreeing c').mpr (.inl hold))
  · rw [hconns] at hc'
    rw [hfreeing, h.marked c' hc', hconn, hremovals, List.mem_append, List.mem_singleton]
    refine or_congr_right ⟨fun heq => by rw [heq], fun heq => ?_⟩
    -- Two listed conns with one index are the same.
    obtain ⟨p', hp'⟩ := List.mem_iff_getElem?.mp hc'
    rw [hs.tabled.index hp', hs.tabled.index hp] at heq
    rw [heq, hp] at hp'
    exact (Option.some.inj hp').symm
  · rw [hremovals, List.nodup_append]
    refine ⟨h.nodup, List.nodup_singleton _, ?_⟩
    intro r hr r' hr' heq
    rw [List.mem_singleton] at hr'
    exact hnot (hr' ▸ heq ▸ hr)
  · rw [hremovals, List.mem_append, List.mem_singleton] at hr
    rw [hconns]
    rcases hr with hold | rfl
    · exact h.bound r hold
    · rw [hs.tabled.index hp]
      exact (List.getElem?_eq_some_iff.mp hp).1

/-- So does the last effect of a step. -/
private theorem marked_final (hok : respectsClosing s₀ i = true) (hs₀ : Sound s₀) (h₀ : Marked s₀)
    (hsteps : Relation.ReflTransGen (Effect s₀ i) s₀ s) (hs : Sound s) (h : Marked s)
    (hfinal : Final s₀ i s s') : Marked s' := by
  -- The input marks no conn twice; the effects before the last one mark none.
  have hlive : ∀ c, i.Concerns s₀ c → s.freeing c = false := by
    intro c hconcerns
    rw [effects_freeing hsteps]
    exact concerns_not_freeing hok hs₀ h₀ hconcerns
  cases hfinal with
  | handled =>
    exact marked_of_eq h rfl rfl rfl (fun c _ => update_index (by rfl) c)
      (freeing_queue_nothing (by rfl))
  | matched =>
    exact marked_of_eq h rfl rfl rfl (fun c _ => update_index (by rfl) c)
      (freeing_queue_nothing (by rfl))
  | unmatched =>
    refine marked_of_eq h rfl rfl rfl (fun _ _ => rfl) (fun c => ?_)
    rw [freeing_queue (queuedCalls_queued _ s.trace),
      PendingCall.frees_eq_false (fun _ heq => ToFree.noConfusion heq), Bool.or_false]
  | @drop c event ph hearly hdrops =>
    have hfrees : ∀ c', { s.localDisconnect c event with phase := ph }.freeing c' =
        (s.freeing c' || (s.closingCall c event).frees c') := by
      intro c'
      refine freeing_queue ?_ c'
      show queuedCalls (s.localDisconnect c event).trace = _
      rw [localDisconnect_trace, queuedCalls_queued]
    by_cases hudp : s.isListeningUdp c
    -- A listening udp conn is only parted from a remote.
    · refine marked_of_eq h (by simp) (by simp [hudp]) (by simp) (by simp) (fun c' => ?_)
      rw [hfrees, PendingCall.frees_eq_false, Bool.or_false]
      simp [closingCall, hudp]
    -- Any other conn is closed, marked and freed by the call now queued.
    · have hc := hlive c (.reports hdrops.reports)
      have hlisted : c ∈ s.conns := by
        refine h.listed c ?_ hc
        exact (hdrops.reports.allocated hs₀.allocated).trans_le (effects_nextConn_le hsteps)
      refine marked_discard hs h hlisted hc (by simp) (by simp) (by simp) (by simp [hudp])
        (fun c' => ?_)
      rw [hfrees, Bool.or_eq_true, PendingCall.frees_iff (c := c)]
      simp [closingCall, hudp]
  | @refuse c index soError msg hvisits hstart =>
    -- `EHOSTUNREACH` or a failed connect: the conn visited is marked.
    subst hstart
    have hlisted := List.mem_of_getElem? hvisits.listed
    refine marked_discard hs h hlisted (hlive c (.visits hvisits)) rfl rfl rfl rfl (fun c' => ?_)
    rw [freeing_queue (queuedCalls_queued _ s.trace), Bool.or_eq_true,
      PendingCall.frees_iff (c := c) rfl]
  | @fail k msg hopens hconn =>
    -- The conn that could not be opened is the one to be freed, and is on no list.
    have hfreeing : ∀ c, ((s.allocConn k).sendCallback s.nextConn .error (some (msgNewData msg))
        (.conn s.nextConn) .other).freeing c = true ↔ s.freeing c = true ∨ c = s.nextConn := by
      intro c
      rw [freeing_queue (s := s.allocConn k) (queuedCalls_queued _ _), Bool.or_eq_true,
        PendingCall.frees_iff (c := s.nextConn) rfl, freeing_eq (queuedCalls_cons rfl _)]
    refine ⟨fun c hc hf => ?_, fun c hc => ?_, h.nodup, h.bound⟩
    · rw [Bool.eq_false_iff] at hf
      rcases Nat.lt_succ_iff_lt_or_eq.mp hc with hlt | heq
      · refine h.listed c hlt ?_
        rw [Bool.eq_false_iff]
        exact fun hold => hf ((hfreeing c).mpr (.inl hold))
      · exact absurd ((hfreeing c).mpr (.inr heq)) hf
    · have hne : c ≠ s.nextConn := Nat.ne_of_lt (hs.allocated.conns c hc)
      have hsame : ((s.allocConn k).conn c).index = (s.conn c).index :=
        (sameEntry_alloc hs.allocated k hc).1
      rw [hfreeing, or_iff_left hne]
      show _ ↔ ((s.allocConn k).conn c).index ∈ s.removals
      rw [hsame]
      exact h.marked c hc

/-! ## The order of calls -/

/-- No call comes behind a closing call while none is queued. -/
private theorem precedes_of_not_freeing {c : ConnId} (h : s.freeing c = false) {p q : PendingCall}
    (hp : p ∈ queuedCalls s.trace) (hq : q.conn = c) : Precedes p q := by
  rw [Precedes, hq, Bool.eq_false_iff]
  intro hfrees
  rw [freeing, List.any_eq_false] at h
  exact h p hp hfrees

/-- Calls that were made had been queued. -/
private theorem called_queued (h : Sound s)
    (hc : ∀ p ∈ calledCalls s.trace, p ∈ queuedCalls s.trace)
    (hchange : QueueChange s₀ i s s') : ∀ p ∈ calledCalls s'.trace, p ∈ queuedCalls s'.trace := by
  intro p hp
  cases hchange with
  | quiet hqueued hcalled =>
    rw [hcalled] at hp
    rw [hqueued]
    exact hc p hp
  | queue _ _ hqueued hcalled =>
    rw [hcalled] at hp
    rw [hqueued]
    exact List.mem_append_left _ (hc p hp)
  | @call q rest junk _ _ hphase hqueued hcalled =>
    rw [hcalled, List.mem_append, List.mem_singleton] at hp
    rw [hqueued]
    rcases hp with hold | rfl
    · exact hc p hold
    · refine mem_queuedCalls.mpr (h.allocated.pending p ?_)
      simp [pending, Phase.saved, hphase]
  | finish hqueued hcalled =>
    rw [hcalled] at hp
    rw [hqueued]
    exact hc p hp

/-- A step that respects closing queues nothing behind a closing call. -/
private theorem ordered_change (hok : respectsClosing s₀ i = true) (hs₀ : Sound s₀) (h₀ : Marked s₀)
    (hfreeing : ∀ c, s.freeing c = s₀.freeing c)
    (hqueued : ∀ p ∈ calledCalls s.trace, p ∈ queuedCalls s.trace) (h : Ordered s)
    (hchange : QueueChange s₀ i s s') : Ordered s' := by
  cases hchange with
  | quiet hqueued hcalled hpending hrunning hfreed =>
    refine ⟨?_, ?_, ?_, ?_, ?_, ?_⟩
    · rw [hqueued]
      exact h.queued
    · rw [hqueued, hpending]
      exact h.pending
    · rw [hcalled]
      exact h.called
    · rw [hcalled, hpending]
      exact h.waiting
    · rw [hcalled, hrunning]
      exact h.running
    · rw [hcalled, hfreed]
      exact h.freed
  | @queue q hconcerns hown hqueue hcalled hpending hrunning hfreed =>
    -- The new call is for a conn that no earlier call frees.
    have hlive : s.freeing q.conn = false := by
      rw [hfreeing]
      exact concerns_not_freeing hok hs₀ h₀ hconcerns
    have hlast : ∀ p ∈ queuedCalls s.trace, Precedes p q := fun p hp =>
      precedes_of_not_freeing hlive hp rfl
    refine ⟨?_, ?_, ?_, ?_, ?_, ?_⟩
    · rw [hqueue, List.pairwise_append]
      refine ⟨h.queued, List.pairwise_singleton _ _, fun p hp q' hq' => ?_⟩
      rw [List.mem_singleton.mp hq']
      exact hlast p hp
    · rw [hqueue, hpending]
      exact h.pending.append (List.Sublist.refl _)
    · rw [hcalled]
      exact h.called
    · rw [hcalled, hpending]
      intro p hp q' hq'
      rcases List.mem_append.mp hq' with hold | hnew
      · exact h.waiting p hp q' hold
      · rw [List.mem_singleton.mp hnew]
        exact hlast p (hqueued p hp)
    · rw [hcalled, hrunning]
      exact h.running
    · rw [hcalled, hfreed]
      exact h.freed
  | @call q rest junk hinput hstart hphase hqueue hcalled hpending hrunning hfreed =>
    have hold : s.pending =
        s.stack.reverse.flatMap Frame.rest ++ (q :: (rest ++ s.immediateCallbacks)) := by
      simp [pending, Phase.saved, hphase]
    have hsub : s'.pending.Sublist s.pending := by
      rw [hold, hpending]
      exact (List.Sublist.refl _).append (List.sublist_cons_self _ _)
    have hq : q ∈ s.pending := by
      rw [hold]
      simp
    refine ⟨?_, ?_, ?_, ?_, ?_, ?_⟩
    · rw [hqueue]
      exact h.queued
    · rw [hqueue]
      exact hsub.trans h.pending
    · rw [hcalled, List.pairwise_append]
      refine ⟨h.called, List.pairwise_singleton _ _, fun p hp q' hq' => ?_⟩
      rw [List.mem_singleton.mp hq']
      exact h.waiting p hp q hq
    · rw [hcalled]
      intro p hp q' hq'
      rcases List.mem_append.mp hp with hearlier | hnew
      · exact h.waiting p hearlier q' (hsub.subset hq')
      · obtain rfl := List.mem_singleton.mp hnew
        rw [hpending, List.mem_append] at hq'
        rcases hq' with houter | hlater
        · -- An outer loop has no call for a conn that is freed now.
          rw [hinput] at hok
          rw [← hstart] at hok
          simp only [respectsClosing, hphase, Bool.or_eq_true, Bool.not_eq_true',
            List.all_eq_true, decide_eq_true_eq] at hok
          rw [Precedes, Bool.eq_false_iff]
          intro hfrees
          have hown := hs₀.own p (by rw [← hstart]; exact h.pending.subset hq) q'.conn hfrees
          rcases hok with hnot | hother
          · rw [hown] at hfrees
            exact Bool.noConfusion (hfrees.symm.trans hnot)
          · exact hother q' houter hown
        · have hpairwise := h.queued.sublist h.pending
          rw [hold, List.pairwise_append, List.pairwise_cons] at hpairwise
          exact hpairwise.2.1.1 q' hlater
    · rw [hcalled, hrunning]
      intro p hp
      rcases List.mem_cons.mp hp with rfl | hmem
      · exact List.mem_append_right _ List.mem_cons_self
      · exact List.mem_append_left _ (h.running p hmem)
    · rw [hcalled, hfreed]
      intro c hc
      obtain ⟨p, hp, hfrees⟩ := h.freed c hc
      exact ⟨p, List.mem_append_left _ hp, hfrees⟩
  | @finish f hqueue hcalled hpending hrunning hfreed =>
    have hf : f.call ∈ s.running := by
      rw [hrunning]
      exact List.mem_cons_self
    refine ⟨?_, ?_, ?_, ?_, ?_, ?_⟩
    · rw [hqueue]
      exact h.queued
    · rw [hqueue, hpending]
      exact h.pending
    · rw [hcalled]
      exact h.called
    · rw [hcalled, hpending]
      exact h.waiting
    · rw [hcalled]
      exact fun p hp => h.running p (hrunning ▸ List.mem_cons_of_mem _ hp)
    · rw [hcalled, hfreed]
      intro c hc
      rw [freedBy, Bool.or_eq_true] at hc
      rcases hc with hfrees | hold
      · exact ⟨f.call, h.running _ hf, hfrees⟩
      · exact h.freed c hold

end State

/-- Marked conns and the order of calls, together with what they rest on. -/
theorem reach_ordered {s : State}
    (h : machine.Reach (fun s i => respectsClosing s i = true) s) :
    Sound s ∧ Marked s ∧ (∀ p ∈ calledCalls s.trace, p ∈ queuedCalls s.trace) ∧ Ordered s := by
  refine reach_sound_invariant
    (fun s => Marked s ∧ (∀ p ∈ calledCalls s.trace, p ∈ queuedCalls s.trace) ∧ Ordered s) ?_
      ?_ ?_ h
  · refine ⟨⟨?_, ?_, List.nodup_nil, ?_⟩, ?_, ⟨.nil, List.Sublist.refl _, .nil, ?_, ?_, ?_⟩⟩
    · exact fun _ hc => absurd hc (Nat.not_lt_zero _)
    · exact fun _ hc => absurd hc List.not_mem_nil
    · exact fun _ hr => absurd hr List.not_mem_nil
    · exact fun _ hp => absurd hp List.not_mem_nil
    · exact fun _ hp => absurd hp List.not_mem_nil
    · exact fun _ hp => absurd hp List.not_mem_nil
    · exact fun _ hc => Bool.noConfusion hc
  · rintro s₀ s s' i hok hs₀ ⟨hm₀, -, -⟩ hsteps hs ⟨hm, hq, ho⟩ heffect
    have hchange := State.effect_queueChange heffect
    exact ⟨State.marked_effect hok hs hm heffect, State.called_queued hs hq hchange,
      State.ordered_change hok hs₀ hm₀ (State.effects_freeing hsteps) hq ho hchange⟩
  · rintro s₀ s s' i hok hs₀ ⟨hm₀, -, -⟩ hsteps hs ⟨hm, hq, ho⟩ hfinal
    have hchange := State.final_queueChange hfinal
    exact ⟨State.marked_final hok hs₀ hm₀ hsteps hs hm hfinal, State.called_queued hs hq hchange,
      State.ordered_change hok hs₀ hm₀ (State.effects_freeing hsteps) hq ho hchange⟩

/-- In every run that respects closing, the call that frees a conn is the last one that is
    queued and the last one that is made for it, so there is one at most, and no call that
    still waits is for a conn that was freed. -/
theorem conn_freed_once {s : State}
    (h : machine.Reach (fun s i => respectsClosing s i = true) s) :
    (∀ p ∈ queuedCalls s.trace, ∀ c, p.toFree = .conn c → c = p.conn) ∧
      (queuedCalls s.trace).Pairwise (fun p q => p.toFree = .conn p.conn → q.conn ≠ p.conn) ∧
      (calledCalls s.trace).Pairwise (fun p q => p.toFree = .conn p.conn → q.conn ≠ p.conn) ∧
      (∀ p ∈ s.pending, s.freed p.conn = false) := by
  obtain ⟨hs, -, hcalled, ho⟩ := reach_ordered h
  have hlast : ∀ {p q : PendingCall}, Precedes p q → p.toFree = .conn p.conn →
      q.conn ≠ p.conn := by
    intro p q hpq hfree heq
    rw [Precedes, heq, PendingCall.frees, hfree, decide_eq_false_iff_not] at hpq
    exact hpq rfl
  refine ⟨?_, ho.queued.imp hlast, ho.called.imp hlast, ?_⟩
  · intro p hp c hfree
    exact hs.own p hp c (decide_eq_true hfree)
  · intro p hp
    rw [Bool.eq_false_iff]
    intro hfreed
    obtain ⟨q, hq, hfrees⟩ := ho.freed p.conn hfreed
    have hnot := ho.waiting q hq p hp
    rw [Precedes, hfrees] at hnot
    exact Bool.noConfusion hnot

/-- A message and the end of the stream arrive on the connection of `connectRun`, and both
    are read in one cycle, up to the callback for the message. -/
def messageThenEnd : List Input :=
  connectRun ++ [.env (.arrive 3 (setHeader .oneWay 0 1 ++ [65])), .env (.hangUp 3)] ++
    cycle [{ peek := .upTo 8, body := .upTo 1 }, { peek := .upTo 8 }]

/-- If the callbacks do nothing, the conn is freed after the one for the lost connection. -/
theorem conn_freed_once_lost :
    ∃ s, machine.Reach (fun s i => respectsClosing s i = true) s ∧ s.freed 0 = true ∧
      (queuedCalls s.trace).Pairwise (fun p q => p.toFree = .conn p.conn → q.conn ≠ p.conn) := by
  obtain ⟨s, hreach, hview⟩ := machine.exists_reach_of_run respectsClosing (fun _ _ h => h)
    (messageThenEnd ++ [.ret, .deliver {}, .ret, .deliver {}]) (fun s => s.freed 0) true
    (by decide +kernel)
  exact ⟨s, hreach, hview, (conn_freed_once hreach).2.1⟩

/-- The application never calls `msg_unlisten`, and `msg_disconnect` at most once for a conn,
    from a callback for it and before any closing event for it. -/
def disconnectsOnce (s : State) : Input → Bool
  | .app (.disconnect c _) =>
    (s.stack.head?.any fun f => f.call.conn = c) &&
      !(s.trace.any fun o => match o with
        | .disconnected c' _ => c' = c
        | _ => false) &&
      !(calledCalls s.trace).any fun p => p.conn = c && p.event.isClosing
  | .app (.unlisten _ _) => false
  | _ => true

/-- A callback that disconnects although the end of the stream has been read already frees
    its conn twice. -/
theorem conn_freed_twice :
    ∃ s, machine.Reach (fun s i => disconnectsOnce s i = true) s ∧
      (queuedCalls s.trace).countP (fun p => p.toFree = .conn 0) = 2 :=
  machine.exists_reach_of_run disconnectsOnce (fun _ _ h => h)
    (messageThenEnd ++ [.app (.disconnect 0 {})])
    (fun s => (queuedCalls s.trace).countP fun p => p.toFree = .conn 0) 2 (by decide +kernel)

end Msgbox
