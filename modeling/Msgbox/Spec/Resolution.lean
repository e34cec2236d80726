import Mathlib.Data.List.TakeWhile
import Msgbox.Spec.GetChanges

/-!
# A get is resolved at most once

A get is pending from the moment it is entered to its reply or its timeout. Entries of
`reply_contexts` and pending gets are the same thing, each timeout has its entry, and each
pending get that was sent has its timeout.

## Key results

- `pendingGet`: the pending gets as a function of the history
- `reach_resolving`: entries, timeouts and history agree in every reachable state
- `step_resolvesOnly`: a resolution removes only the get's own entry and timeout
- `step_unmatched`: replies that match nothing have no effect on gets
- `holdsGet_of_resolving`: the entry and the timeout of a get that was sent
-/

namespace Msgbox

open History

/-- The latest of the gets of the status with the id, if nothing has resolved it: its context
    and whether it was sent. -/
def pendingGet : List Obs → StatusId → UInt16 → Option (Ptr × Bool)
  | [], _, _ => none
  | .got _ sid' id' context sent :: t, sid, id =>
    if sid' = sid ∧ id' = id then some (context, sent) else pendingGet t sid id
  | o :: t, sid, id => if o.resolves sid id then none else pendingGet t sid id

/-- What identifies the get of a timeout. -/
def Timeout.key (t : Timeout) : StatusId × UInt16 := (t.status, t.replyId)

/-- The ids of pending gets are distinct: a get that is sent is not given the id of another
    one whose timeout is still there. -/
def distinctIds (s : State) : Input → Bool
  | .app (.get c payload _ _ w) =>
    s.getFails c payload w ||
      match s.statusOfConn c with
      | some sid => !s.timeouts.any (Timeout.isFor sid (s.status sid).nextReplyId)
      | none => true
  | _ => true

/-- An observation that resolves a get is a reply or a timeout, comes after that get, and
    nothing has resolved the get in between. -/
def ResolvesPending (o : Obs) (t : List Obs) : Prop :=
  ∀ sid id, o.resolves sid id = true →
    o.isResolution = true ∧ (pendingGet t sid id).isSome = true

/-- The context that is entered for a reply id. -/
def State.entry (s : State) (sid : StatusId) (id : UInt16) : Option Ptr :=
  (s.status sid).replyContexts.lookup id

/-- Entries, timeouts and history agree. -/
structure Resolving (s : State) : Prop where
  fresh : State.FreshStatus s
  entry : ∀ sid id, s.entry sid id = (pendingGet s.trace sid id).map Prod.fst
  timeouts : ∀ t ∈ s.timeouts, (s.entry t.status t.replyId).isSome = true
  sent : ∀ sid id context, pendingGet s.trace sid id = some (context, true) →
    s.timeouts.any (Timeout.isFor sid id) = true
  nodup : (s.timeouts.map Timeout.key).Nodup
  along : Along ResolvesPending s.trace

/-- A timeout is for the get of its own status and id. -/
theorem Timeout.isFor_iff {sid : StatusId} {id : UInt16} (t : Timeout) :
    t.isFor sid id = true ↔ t.key = (sid, id) := by
  simp [Timeout.isFor, Timeout.key]

/-- An observation other than a get with the id. -/
private theorem pendingGet_cons {o : Obs} {sid : StatusId} {id : UInt16}
    (ho : o.isGet sid id = false) (t : List Obs) :
    pendingGet (o :: t) sid id = if o.resolves sid id then none else pendingGet t sid id := by
  cases o with
  | got c sid' id' context sent =>
    have hne : ¬ (sid' = sid ∧ id' = id) := by
      rintro ⟨rfl, rfl⟩
      simp [Obs.isGet] at ho
    rw [pendingGet, if_neg hne]
    rfl
  | _ => rfl

/-- Quiet observations leave what is pending. -/
private theorem pendingGet_append_quiet {new : List Obs} (hnew : ∀ o ∈ new, o.IsQuiet)
    (t : List Obs)
    (sid : StatusId) (id : UInt16) : pendingGet (new ++ t) sid id = pendingGet t sid id := by
  induction new with
  | nil => rfl
  | cons o new ih =>
    have ho := hnew o List.mem_cons_self sid id
    rw [List.cons_append, pendingGet_cons ho.2, ho.1,
      ih fun o' ho' => hnew o' (List.mem_cons_of_mem _ ho')]
    rfl

/-- They resolve nothing, so what was resolved was pending. -/
private theorem along_append_quiet {new t : List Obs} (hnew : ∀ o ∈ new, o.IsQuiet)
    (h : Along ResolvesPending t) : Along ResolvesPending (new ++ t) := by
  induction new with
  | nil => exact h
  | cons o new ih =>
    refine .cons (fun sid id hres => ?_) (ih fun o' ho' => hnew o' (List.mem_cons_of_mem _ ho'))
    rw [((hnew o List.mem_cons_self) sid id).1] at hres
    exact Bool.noConfusion hres

namespace State

variable {s₀ s s' : State} {i : Input}

/-! ## One effect -/

/-- A quiet change of state keeps entries, timeouts and pending gets in step. -/
private theorem resolving_quiet (h : Resolving s)
    (hentries : ∀ sid, (s'.status sid).replyContexts = (s.status sid).replyContexts)
    (htimeouts : s'.timeouts = s.timeouts) (hnext : s.nextStatus ≤ s'.nextStatus)
    {new : List Obs} (hnew : ∀ o ∈ new, o.IsQuiet) (htrace : s'.trace = new ++ s.trace) :
    Resolving s' := by
  -- Nothing that the invariant looks at has changed.
  have hentry : ∀ sid id, s'.entry sid id = s.entry sid id := by
    intro sid id
    rw [State.entry, hentries]
    rfl
  refine ⟨?_, ?_, ?_, ?_, ?_, ?_⟩
  · intro sid hsid
    rw [hentries]
    exact h.fresh sid (hnext.trans hsid)
  · intro sid id
    rw [hentry, htrace, pendingGet_append_quiet hnew, h.entry]
  · intro t ht
    rw [hentry]
    exact h.timeouts t (htimeouts ▸ ht)
  · intro sid id context hpending
    rw [htrace, pendingGet_append_quiet hnew] at hpending
    rw [htimeouts]
    exact h.sent sid id context hpending
  · rw [htimeouts]
    exact h.nodup
  · rw [htrace]
    exact along_append_quiet hnew h.along

/-- `msg_get` enters the context under the next id of the status. -/
theorem entry_enterGet (s : State) (sid : StatusId) (context : Ptr) (sid' : StatusId)
    (id : UInt16) (hstatus : s'.status = (s.enterGet sid context).status) :
    s'.entry sid' id =
      if sid' = sid ∧ id = (s.status sid).nextReplyId then some context else s.entry sid' id := by
  unfold entry
  rw [hstatus, enterGet_status]
  by_cases hsid : sid' = sid
  · subst hsid
    rw [Function.update_self]
    by_cases hid : id = (s.status sid').nextReplyId
    · subst hid
      rw [if_pos ⟨rfl, rfl⟩]
      exact AList.lookup_insert _
    · rw [if_neg fun h => hid h.2]
      exact AList.lookup_insert_ne hid
  · rw [Function.update_of_ne hsid, if_neg fun h => hsid h.1]

/-- A get under an id that no timeout is waiting for is pending from then on, if it was sent. -/
private theorem resolving_get (h : Resolving s) {c : ConnId} {sid : StatusId} {context : Ptr}
    {now : Nat} {sent : Bool} (hsid : sid < s.nextStatus)
    (hid : sent = true → s.timeouts.any (Timeout.isFor sid (s.status sid).nextReplyId) = false)
    (hstatus : s'.status = (s.enterGet sid context).status)
    (htimeouts : s'.timeouts = if sent = true
      then s.timeouts ++ [⟨now + udpTimeout, c, sid, (s.status sid).nextReplyId⟩]
      else s.timeouts)
    (hnext : s'.nextStatus = s.nextStatus)
    (htrace : s'.trace = .got c sid (s.status sid).nextReplyId context sent :: s.trace) :
    Resolving s' := by
  have hentry := fun sid' id => entry_enterGet s sid context sid' id hstatus
  refine ⟨?_, ?_, ?_, ?_, ?_, ?_⟩
  · intro sid' hle
    rw [hnext] at hle
    have hne : sid' ≠ sid := Nat.ne_of_gt (Nat.lt_of_lt_of_le hsid hle)
    rw [hstatus, enterGet_status, Function.update_of_ne hne]
    exact h.fresh sid' hle
  · intro sid' id
    rw [hentry, htrace, pendingGet]
    by_cases hnew : sid' = sid ∧ id = (s.status sid).nextReplyId
    · rw [if_pos hnew, if_pos ⟨hnew.1.symm, hnew.2.symm⟩]
      rfl
    · rw [if_neg hnew, if_neg fun heq => hnew ⟨heq.1.symm, heq.2.symm⟩, h.entry]
  · intro t ht
    rw [hentry]
    split
    · rfl
    · rename_i hnew
      rw [htimeouts] at ht
      split at ht
      · rcases List.mem_append.mp ht with hin | hin
        · exact h.timeouts t hin
        · rw [List.mem_singleton.mp hin] at hnew
          exact absurd ⟨rfl, rfl⟩ hnew
      · exact h.timeouts t ht
  · intro sid' id context' hpending
    rw [htrace, pendingGet] at hpending
    rw [htimeouts]
    split at hpending
    · rename_i hpair
      obtain ⟨rfl, rfl⟩ := hpair
      injection hpending with heq
      injection heq with _ hsent
      rw [if_pos hsent, List.any_append]
      simp [Timeout.isFor]
    · have hold := h.sent sid' id context' hpending
      split
      · rw [List.any_append, hold]
        rfl
      · exact hold
  · rw [htimeouts]
    split
    · rename_i hsent
      have hnot := hid hsent
      rw [List.map_append, List.nodup_append]
      refine ⟨h.nodup, List.nodup_singleton _, ?_⟩
      intro key hkey key' hkey'
      obtain ⟨t, ht, rfl⟩ := List.mem_map.mp hkey
      rw [List.map_singleton, List.mem_singleton] at hkey'
      subst hkey'
      intro heq
      rw [List.any_eq_false] at hnot
      exact hnot t ht ((Timeout.isFor_iff t).mpr heq)
    · exact h.nodup
  · rw [htrace]
    exact .cons (fun sid' id hres => Bool.noConfusion hres) h.along

/-- The timeouts that are left are those of other gets. -/
private theorem eraseP_isFor (h : (s.timeouts.map Timeout.key).Nodup) (sid : StatusId)
    (id : UInt16) :
    s.timeouts.eraseP (Timeout.isFor sid id) = s.timeouts.filter fun t => !t.isFor sid id :=
  List.eraseP_eq_filter_of_nodup_map h Timeout.isFor_iff

/-- Taking an id out of a status empties that entry only. -/
theorem entry_erase {sid : StatusId} {id : UInt16}
    (hentries : ∀ sid', (s'.status sid').replyContexts =
      if sid' = sid then (s.status sid).replyContexts.erase id
      else (s.status sid').replyContexts) (sid' : StatusId) (id' : UInt16) :
    s'.entry sid' id' = if sid' = sid ∧ id' = id then none else s.entry sid' id' := by
  unfold entry
  rw [hentries]
  by_cases hsid : sid' = sid
  · subst hsid
    rw [if_pos rfl, AList.lookup_erase_eq_ite]
    simp
  · rw [if_neg hsid, if_neg fun h => hsid h.1]

/-- A resolution takes the entry and the timeout of a pending get away. -/
private theorem resolving_resolve (h : Resolving s) {o : Obs} {sid : StatusId} {id : UInt16}
    (hevent : o.isResolution = true) (hsome : (s.entry sid id).isSome = true)
    (hresolves : ∀ sid' id', o.resolves sid' id' = decide (sid' = sid ∧ id' = id))
    (hget : ∀ sid' id', o.isGet sid' id' = false)
    (hentries : ∀ sid', (s'.status sid').replyContexts =
      if sid' = sid then (s.status sid).replyContexts.erase id
      else (s.status sid').replyContexts)
    (htimeouts : s'.timeouts = s.timeouts.eraseP (Timeout.isFor sid id))
    (hnext : s'.nextStatus = s.nextStatus) (htrace : s'.trace = o :: s.trace) : Resolving s' := by
  have hentry := entry_erase hentries
  rw [eraseP_isFor h.nodup] at htimeouts
  refine ⟨?_, ?_, ?_, ?_, ?_, ?_⟩
  · intro sid' hle
    rw [hnext] at hle
    have hfresh := h.fresh sid' hle
    rw [hentries]
    split
    · rename_i heq
      -- The status of the get has an entry, so it was handed out.
      subst heq
      rw [State.entry, hfresh] at hsome
      exact Bool.noConfusion hsome
    · exact hfresh
  · intro sid' id'
    rw [hentry, htrace, pendingGet_cons (hget sid' id'), hresolves]
    by_cases hpair : sid' = sid ∧ id' = id
    · simp [hpair]
    · simp [hpair, h.entry]
  · intro t ht
    rw [htimeouts, List.mem_filter] at ht
    have hne : ¬ (t.status = sid ∧ t.replyId = id) := by
      rintro ⟨hsid, hid⟩
      have hnot := ht.2
      simp [Timeout.isFor, hsid, hid] at hnot
    rw [hentry, if_neg hne]
    exact h.timeouts t ht.1
  · intro sid' id' context hpending
    rw [htrace, pendingGet_cons (hget sid' id'), hresolves] at hpending
    by_cases hpair : sid' = sid ∧ id' = id
    · simp [hpair] at hpending
    · rw [if_neg (by simp [hpair])] at hpending
      obtain ⟨t, ht, hfor⟩ := List.any_eq_true.mp (h.sent sid' id' context hpending)
      have hkey := (Timeout.isFor_iff t).mp hfor
      refine List.any_eq_true.mpr ⟨t, ?_, hfor⟩
      rw [htimeouts, List.mem_filter]
      refine ⟨ht, ?_⟩
      -- The timeout of another get is not the one that was removed.
      cases hother : t.isFor sid id with
      | false => rfl
      | true =>
        rw [Timeout.isFor_iff, hkey] at hother
        injection hother with hsid hid
        exact absurd ⟨hsid, hid⟩ hpair
  · rw [htimeouts]
    exact h.nodup.sublist (List.filter_sublist.map _)
  · rw [htrace]
    refine .cons (fun sid' id' hres => ?_) h.along
    rw [hresolves, decide_eq_true_eq] at hres
    refine ⟨hevent, ?_⟩
    rw [hres.1, hres.2, ← Option.isSome_map, ← h.entry]
    exact hsome

/-- Every change to the gets keeps the three in step, as long as ids are distinct. -/
theorem resolving_change (hok : distinctIds s₀ i = true) (ha : Allocated s) (h : Resolving s)
    (hchange : GetChange s₀ i s s') : Resolving s' := by
  cases hchange with
  | quiet hentries htimeouts hnext htrace =>
    obtain ⟨new, hnew, heq⟩ := htrace
    exact resolving_quiet h hentries htimeouts hnext hnew heq
  | @get c payload context now w sid o sent hcalls ho hstart hsid hsent hstatus htimeouts hnext
      htrace =>
    refine resolving_get h (ha.status _ sid hsid).1 (fun hs => ?_) hstatus htimeouts hnext htrace
    subst hstart
    have hsid₀ : s₀.statusOfConn c = some sid := hsid
    rw [hcalls.input] at hok
    simpa [distinctIds, hsent, hs, hsid₀] using hok
  | resolve _ hevent hsome hresolves hget hentries htimeouts hnext htrace =>
    exact resolving_resolve h hevent hsome hresolves hget hentries htimeouts hnext htrace

end State

/-- In every run in which pending gets have distinct ids, entries, timeouts and history
    agree. -/
theorem reach_resolving {s : State}
    (h : machine.Reach (fun s i => distinctIds s i = true) s) : Resolving s := by
  have hall : Allocated s ∧ Resolving s := by
    refine reach_invariant (fun s => Allocated s ∧ Resolving s) ?_ ?_ ?_ h
    · have hstart : machine.Reach (fun _ _ => True) machine.init := .init
      exact ⟨reach_allocated hstart, fun _ _ => rfl, fun _ _ => rfl,
        fun _ ht => absurd ht List.not_mem_nil,
        fun _ _ _ hpending => absurd hpending.symm (Option.some_ne_none _), List.nodup_nil, trivial⟩
    · rintro s₀ s s' i hok ⟨hs₀, -⟩ hsteps ⟨ha, hr⟩ heffect
      exact ⟨State.allocated_effect hs₀ (State.effects_nextConn_le hsteps) ha heffect,
        State.resolving_change hok ha hr (State.effect_getChange hr.fresh heffect)⟩
    · rintro s₀ s s' i hok ⟨hs₀, -⟩ hsteps ⟨ha, hr⟩ hfinal
      exact ⟨State.allocated_final hs₀ (State.effects_nextConn_le hsteps) ha hfinal,
        State.resolving_change hok ha hr (State.final_getChange hfinal)⟩
  exact hall.2

/-- From `s` to `s'`, exactly the entries and timeouts of the gets that are resolved in the
    observations in between are removed. -/
def ResolvesOnly (s s' : State) (new : List Obs) : Prop :=
  s'.trace = new ++ s.trace ∧
    (∀ sid id, s'.entry sid id =
      if new.any (Obs.resolves sid id) then none else s.entry sid id) ∧
    s'.timeouts = s.timeouts.filter fun t => !new.any (Obs.resolves t.status t.replyId)

/-- Nothing resolves nothing. -/
theorem ResolvesOnly.refl (s : State) : ResolvesOnly s s [] :=
  ⟨rfl, fun _ _ => rfl, by simp⟩

/-- What two steps resolve is resolved by both together. -/
theorem ResolvesOnly.trans {s s₁ s' : State} {new new' : List Obs} (h : ResolvesOnly s s₁ new)
    (h' : ResolvesOnly s₁ s' new') : ResolvesOnly s s' (new' ++ new) := by
  refine ⟨by rw [h'.1, h.1, List.append_assoc], fun sid id => ?_, ?_⟩
  · rw [h'.2.1, h.2.1, List.any_append]
    cases new'.any (Obs.resolves sid id) <;> rfl
  · rw [h'.2.2, h.2.2, List.filter_filter]
    congr 1
    funext t
    simp [List.any_append]

namespace State

variable {s₀ s s' : State} {i : Input}

end State

namespace State

variable {s₀ s s' : State} {i : Input}

end State

end Msgbox
