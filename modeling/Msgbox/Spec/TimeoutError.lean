import Msgbox.Spec.ConnFields
import Msgbox.Spec.Expiry
import Msgbox.Spec.ReplyContext

/-!
# Which get an error is about

The error of a get that timed out shows its context through the conn, as a reply does: a udp
conn takes it from the call's data, a tcp conn has it in a field that all its gets share. The
address in the data is read through a pointer to an item that was removed, which by then is
the next one.

## Key results

- `SeesGet`: the callback sees the get that timed out
- `timeout_identified_iff`: when the callback for an error sees its get
-/

namespace Msgbox

/-- The conn's fields in a callback are those of a get with the given context and address; only
    udp conns take their address from the call. -/
def SeesGet (k : Conn) (context : Ptr) (a : Address) : Prop :=
  k.replyContext = context ∧ (a.protocolType = .udp → k.remoteAddress = a)

namespace State

variable {s s' : State}

/-- The calls of the pass include the one for each timeout that it comes to. -/
private theorem expiryCall_mem {now : Nat} {pre rest : List Timeout} {t : Timeout}
    (hdue : ∀ t' ∈ pre ++ [t], t'.at_ ≤ now) :
    s.expiryCall t rest ∈ s.expiryCalls now (pre ++ t :: rest) := by
  induction pre with
  | nil =>
    have hle := hdue t (List.mem_singleton_self t)
    rw [List.nil_append, expiryCalls, if_neg (by omega)]
    exact List.mem_cons_self
  | cons t' pre ih =>
    have hle := hdue t' List.mem_cons_self
    rw [List.cons_append, expiryCalls, if_neg (by omega)]
    exact List.mem_cons_of_mem _ (ih fun t'' ht'' => hdue t'' (List.mem_cons_of_mem _ ht''))

/-- On a udp conn: the context is right, and the address is the one in the data. -/
private theorem seesGet_udp {t : Timeout} {rest : List Timeout} {context : Ptr} {s₀ : State}
    {junk : Junk} (hentry : s₀.entry t.status t.replyId = some context)
    (hudp : (s.conn t.conn).protocolType = .udp) :
    SeesGet (s.loaded (s₀.expiryCall t rest) junk) context (s₀.status t.status).remoteAddress ↔
      ((s₀.status t.status).remoteAddress.protocolType = .udp → ∀ next ∈ rest.head?,
        (s₀.status next.status).remoteAddress = (s₀.status t.status).remoteAddress) := by
  have hloaded := s.loaded_of_udp (s₀.expiryCall t rest) junk (by rfl) hudp
  have hctx : (s.loaded (s₀.expiryCall t rest) junk).replyContext = context := by
    rw [hloaded.1, hentry]
    rfl
  have haddr : (s.loaded (s₀.expiryCall t rest) junk).remoteAddress =
      (s₀.status (rest.headD t).status).remoteAddress := hloaded.2
  unfold SeesGet
  rw [haddr, and_iff_right hctx]
  cases rest with
  | nil => simp
  | cons next rest => simp

/-- On any other conn: nothing is taken from the call. -/
private theorem seesGet_other {t : Timeout} {rest : List Timeout} {context : Ptr} {s₀ : State}
    {junk : Junk} (hfollows : Follows s) (hnot : (s.conn t.conn).protocolType ≠ .udp)
    (a : Address) :
    SeesGet (s.loaded (s₀.expiryCall t rest) junk) context a ↔
      a.protocolType ≠ .udp ∧ lastContext s.trace t.conn = context := by
  rw [s.loaded_of_no_data (s₀.expiryCall t rest) junk (.inr hnot)]
  show (s.conn t.conn).replyContext = context ∧
    (a.protocolType = .udp → (s.conn t.conn).remoteAddress = a) ↔ _
  rw [hfollows.replyContext]
  constructor
  · rintro ⟨hctx, haddr⟩
    refine ⟨fun hudp => hnot ?_, hctx⟩
    rw [Conn.protocolType, haddr hudp, hudp]
  · rintro ⟨hudp, hctx⟩
    exact ⟨hctx, fun h => absurd h hudp⟩

end State

/-- In every run, for every timeout that a pass comes to: the pass queues an error for its get,
    and when this call is delivered, the callback sees the get if and only if, on a udp conn,
    the next timeout is for the same address or there is none, and on any other conn, no later
    message or timeout of the conn has left another context there. -/
theorem timeout_identified_iff {s₀ s₁ : State} {now : Nat}
    (h : machine.Reach (fun _ _ => True) s₀) (hpass : step s₀ (.timeouts now) = some s₁)
    {pre rest : List Timeout} {t : Timeout} (htimeouts : s₀.timeouts = pre ++ t :: rest)
    (hdue : ∀ t' ∈ pre ++ [t], t'.at_ ≤ now) :
    ∃ context, s₀.entry t.status t.replyId = some context ∧
      Obs.queued (s₀.expiryCall t rest) ∈ s₁.trace ∧
      ∀ s₂ s₃ calls junk, machine.Path (fun _ _ => True) s₁ s₂ →
        s₂.phase = .delivering (s₀.expiryCall t rest :: calls) →
        step s₂ (.deliver junk) = some s₃ →
        (SeesGet (s₃.conn t.conn) context (s₀.status t.status).remoteAddress ↔
          if (s₂.conn t.conn).protocolType = .udp then
            (s₀.status t.status).remoteAddress.protocolType = .udp → ∀ next ∈ rest.head?,
              (s₀.status next.status).remoteAddress = (s₀.status t.status).remoteAddress
          else (s₀.status t.status).remoteAddress.protocolType ≠ .udp ∧
            lastContext s₂.trace t.conn = context) := by
  obtain ⟨s', hloop, rfl⟩ := Option.map_eq_some_iff.mp (State.step_timeouts hpass).2
  obtain ⟨-, htrace, -, hvalid, -⟩ := State.timeoutLoop_spec rfl hloop
  -- The timeout is due, and so are those before it: the pass reaches it.
  have hmem : t ∈ s₀.timeouts.takeWhile fun t => t.at_ ≤ now := by
    have hle : t.at_ ≤ now := hdue t (List.mem_append_right _ (List.mem_singleton_self t))
    rw [htimeouts, List.takeWhile_append_of_pos fun t' ht' =>
      by simpa using hdue t' (List.mem_append_left _ ht'),
      List.takeWhile_cons_of_pos (by simpa using hle)]
    exact List.mem_append_right _ List.mem_cons_self
  obtain ⟨context, hentry⟩ := Option.isSome_iff_exists.mp (hvalid t hmem).2.2
  refine ⟨context, hentry, ?_, ?_⟩
  · show Obs.queued _ ∈ s'.trace
    rw [htrace, htimeouts]
    apply List.mem_append_left
    rw [List.mem_reverse]
    exact List.mem_map_of_mem (State.expiryCall_mem hdue)
  -- Only a udp call carries an address and a context of its own.
  · intro s₂ s₃ calls junk hpath hphase hdeliver
    have hreach : machine.Reach (fun _ _ => True) s₂ :=
      hpath.reach (fun _ _ _ => trivial) (h.step (i := .timeouts now) trivial hpass)
    rw [State.deliver_conn s₂ _ _ junk hphase hdeliver,
      show (s₀.expiryCall t rest).conn = t.conn from rfl, Function.update_self]
    split
    · rename_i hudp
      exact State.seesGet_udp hentry hudp
    · rename_i hudp
      exact State.seesGet_other (reach_follows hreach) hudp _

/-- Gets with the given contexts on the connection of `connectRun`, and the cycle in which they
    time out, up to the pass. -/
def expiringGets (contexts : List Ptr) : List Input :=
  connectRun ++ (contexts.map fun context => .app (.get 0 [1] context 0 {})) ++ [.runloop .nothing]

/-- Of two gets on one tcp conn that time out in one pass, the callback for the error of the
    second one sees its context, and the callback for the first one does not see its own. -/
theorem timeout_identified_two :
    ∃ s₀ s₁ s₂ s₃ s₄, machine.Reach (fun _ _ => True) s₀ ∧
      step s₀ (.timeouts State.udpTimeout) = some s₁ ∧ step s₁ (.deliver {}) = some s₂ ∧
        step s₂ .ret = some s₃ ∧ step s₃ (.deliver {}) = some s₄ ∧
          ¬ SeesGet (s₂.conn 0) 9 (s₀.status 0).remoteAddress ∧
          SeesGet (s₄.conn 0) 7 (s₀.status 0).remoteAddress := by
  obtain ⟨s₀, hreach, hview⟩ := machine.exists_reach_of_run (P := fun _ _ => True)
    (fun _ _ => true) (fun _ _ _ => trivial) (expiringGets [9, 7])
    (fun s => decide (s.timeouts = [⟨State.udpTimeout, 0, 0, 1⟩, ⟨State.udpTimeout, 0, 0, 2⟩] ∧
      s.entry 0 1 = some 9 ∧ s.entry 0 2 = some 7 ∧
      (s.status 0).remoteAddress.protocolType = .tcp ∧
      ((step s (.timeouts State.udpTimeout)).bind fun s₁ => (step s₁ (.deliver {})).bind fun s₂ =>
        (step s₂ .ret).map fun s₃ : State =>
          ((s₁.phase, (s₁.conn 0).protocolType, lastContext s₁.trace 0),
            s₃.phase, (s₃.conn 0).protocolType, lastContext s₃.trace 0,
              (step s₃ (.deliver {})).isSome)) =
        some ((.delivering [s.expiryCall ⟨State.udpTimeout, 0, 0, 1⟩ [⟨State.udpTimeout, 0, 0, 2⟩],
            s.expiryCall ⟨State.udpTimeout, 0, 0, 2⟩ []], .tcp, 7),
          .delivering [s.expiryCall ⟨State.udpTimeout, 0, 0, 2⟩ []], .tcp, 7, true)))
    true (by decide +kernel)
  rw [decide_eq_true_eq] at hview
  obtain ⟨htimeouts, hfirst, hsecond, hproto, hrun⟩ := hview
  obtain ⟨s₁, hpass, hrun⟩ := Option.bind_eq_some_iff.mp hrun
  obtain ⟨s₂, hs₂, hrun⟩ := Option.bind_eq_some_iff.mp hrun
  obtain ⟨s₃, hs₃, hview⟩ := Option.map_eq_some_iff.mp hrun
  simp only [Prod.mk.injEq] at hview
  obtain ⟨⟨hphase₁, hconn₁, hlast₁⟩, hphase₃, hconn₃, hlast₃, hdeliver⟩ := hview
  obtain ⟨s₄, hs₄⟩ := Option.isSome_iff_exists.mp hdeliver
  have hnot : ∀ {s : State}, (s.conn 0).protocolType = .tcp → (s.conn 0).protocolType ≠ .udp :=
    fun htcp => by rw [htcp]; exact Protocol.noConfusion
  refine ⟨s₀, s₁, s₂, s₃, s₄, hreach, hpass, hs₂, hs₃, hs₄, ?_, ?_⟩
  · obtain ⟨context, hcontext, -, hsees⟩ := timeout_identified_iff hreach hpass
      (show s₀.timeouts = [] ++ ⟨State.udpTimeout, 0, 0, 1⟩ :: _ from htimeouts) (by decide)
    obtain rfl := Option.some.inj (hfirst.symm.trans hcontext)
    rw [hsees s₁ s₂ _ {} .refl hphase₁ hs₂, if_neg (hnot hconn₁)]
    exact fun h => absurd (hlast₁.symm.trans h.2) (by decide)
  · obtain ⟨context, hcontext, -, hsees⟩ := timeout_identified_iff hreach hpass
      (show s₀.timeouts = [⟨State.udpTimeout, 0, 0, 1⟩] ++ ⟨State.udpTimeout, 0, 0, 2⟩ :: [] from
        htimeouts) (by decide)
    obtain rfl := Option.some.inj (hsecond.symm.trans hcontext)
    have hpath : machine.Path (fun _ _ => True) s₁ s₃ :=
      .tail (i := .ret) (.tail (i := .deliver {}) .refl trivial hs₂) trivial hs₃
    refine (hsees s₃ s₄ [] {} hpath hphase₃ hs₄).mpr ?_
    rw [if_neg (hnot hconn₃)]
    exact ⟨by rw [hproto]; exact Protocol.noConfusion, hlast₃⟩

/-- With two gets on one tcp conn that time out in one pass, the callback for the error of the
    first one sees the context of the second. -/
theorem timeout_not_identified :
    ∃ s k p t, machine.Reach (fun _ _ => True) s ∧ s.trace = [] ++ .called k p :: t ∧
      p.event = .error ∧ p.cause = .timeout 0 1 7 ∧ Obs.got 0 0 1 7 true ∈ t ∧
        k.replyContext = 9 := by
  obtain ⟨s, hreach, hview⟩ := machine.exists_reach_of_run (P := fun _ _ => True)
    (fun _ _ => true) (fun _ _ _ => trivial)
    (expiringGets [7, 9] ++ [.timeouts State.udpTimeout, .deliver {}])
    (fun s => (justCalled s).map fun (k, p, t) =>
      (p.event, p.cause, decide (.got 0 0 1 7 true ∈ t), k.replyContext))
    (some (.error, .timeout 0 1 7, true, 9)) (by decide +kernel)
  obtain ⟨⟨k, p, t⟩, hcalled, heq⟩ := Option.map_eq_some_iff.mp hview
  simp only [Prod.mk.injEq, decide_eq_true_eq] at heq
  exact ⟨s, k, p, t, hreach, trace_of_justCalled hcalled, heq⟩

end Msgbox
