import Msgbox.Lib.Keyed
import Msgbox.Spec.Tables

/-!
# Up to the moment a conn is dropped

What comes before the call of `local_disconnect` in a step leaves the conn's address, its
index and the timeouts as they were, and only adds to `conn_status`.

## Key results

- `early_remoteAddress`, `early_lookup` and their siblings: one lemma for each field
- `Input.freeTarget`, `freeTarget_of_drops`: the conn that a step queues to be freed
-/

namespace Msgbox

/-- The conn that the step queues to be freed. -/
def Input.freeTarget (s : State) (i : Input) : Option ConnId :=
  match i with
  | .visit _ => i.refuseTarget s
  | .app (.unlisten _ _) => i.dropTarget s
  | _ => (i.dropTarget s).filter fun c => !s.isListeningUdp c

namespace State

variable {s₀ s s' : State} {i : Input}

theorem early_timeouts (h : Relation.ReflTransGen (Early s₀ i) s₀ s) :
    s.timeouts = s₀.timeouts := by
  induction h with
  | refl => rfl
  | tail _ heffect ih => cases heffect <;> exact ih

theorem update_remoteAddress {c : ConnId} {k : Conn}
    (hk : k.remoteAddress = (s.conn c).remoteAddress) (c' : ConnId) :
    (Function.update s.conn c k c').remoteAddress = (s.conn c').remoteAddress := by
  by_cases hc : c' = c
  · subst hc
    rw [Function.update_self, hk]
  · rw [Function.update_of_ne hc]

theorem early_remoteAddress (h : Relation.ReflTransGen (Early s₀ i) s₀ s) (c : ConnId) :
    (s.conn c).remoteAddress = (s₀.conn c).remoteAddress := by
  induction h with
  | refl => rfl
  | tail _ heffect ih =>
    rw [← ih]
    cases heffect with
    | header => exact update_remoteAddress (by rfl) c
    | unflag => exact update_remoteAddress (by rfl) c
    | _ => rfl

/-- Only `msg_unlisten` takes the flag of a listening conn away. -/
private theorem early_forListening (h : Relation.ReflTransGen (Early s₀ i) s₀ s)
    (hcall : ∀ c result, i ≠ .app (.unlisten c result)) (c : ConnId) :
    (s.conn c).forListening = (s₀.conn c).forListening := by
  induction h with
  | refl => rfl
  | tail _ heffect ih =>
    rw [← ih]
    cases heffect with
    | @header c' r hd =>
      by_cases hc : c = c'
      · subst hc
        simp
      · simp [hc]
    | unflag hcalls => exact absurd hcalls.input (hcall _ _)
    | _ => rfl

/-- A status that is filed by then was filed before, or is a new one. -/
theorem early_lookup (h : Relation.ReflTransGen (Early s₀ i) s₀ s) :
    s₀.nextStatus ≤ s.nextStatus ∧ ∀ a sid, s.connStatus.lookup a = some sid →
      s₀.connStatus.lookup a = some sid ∨ s₀.nextStatus ≤ sid := by
  induction h with
  | refl => exact ⟨Nat.le_refl _, fun _ _ h => .inl h⟩
  | tail _ heffect ih =>
    cases heffect with
    | ready =>
      refine ⟨Nat.le_succ_of_le ih.1, fun a sid hlookup => ?_⟩
      rcases AList.lookup_insert_eq_some.mp hlookup with ⟨-, rfl⟩ | ⟨-, hold⟩
      · exact .inr ih.1
      · exact ih.2 a sid hold
    | _ => exact ih

/-- The conn of a step that calls `local_disconnect` is the one to be freed, unless it stays
    a listening udp conn. -/
theorem freeTarget_of_drops {c : ConnId} (hdrops : i.Drops s₀ c)
    (hearly : Relation.ReflTransGen (Early s₀ i) s₀ s) (hfree : s.isListeningUdp c = false) :
    i.freeTarget s₀ = some c := by
  have htarget := hdrops.target
  -- Before the drop only `msg_unlisten` takes the flag off a conn.
  have hkeep : (∀ c' result, i ≠ .app (.unlisten c' result)) → s₀.isListeningUdp c = false := by
    intro hcall
    rw [← hfree, isListeningUdp, isListeningUdp, early_forListening hearly hcall,
      Conn.protocolType, Conn.protocolType, early_remoteAddress hearly]
  cases hdrops with
  | @read r h =>
    have hinput := h.input
    subst hinput
    show (Input.dropTarget s₀ (.read r)).filter (fun c => !s₀.isListeningUdp c) = some c
    rw [htarget]
    simp [hkeep (fun _ _ => Input.noConfusion)]
  | @disconnect w h =>
    have hinput := h.input
    subst hinput
    show (Input.dropTarget s₀ (.app (.disconnect c w))).filter (fun c => !s₀.isListeningUdp c) =
      some c
    rw [htarget]
    simp [hkeep (fun _ _ hcall => AppCall.noConfusion (Input.app.inj hcall))]
  | unlisten h =>
    have hinput := h.input
    subst hinput
    exact htarget

end State

end Msgbox
