import Msgbox.Spec.Lifecycle

/-!
# The contexts of the remotes

A listening udp conn has one `conn_context`, which is exchanged around each callback, so that every
remote seems to have its own. A remote begins with what the conn has when its first datagram is
read, which may be what a callback for another remote left there.

## Key results

- `noteContext`: what a remote's context was the last time that it was its turn
- `remote_contexts`: this is what the next callback for the remote finds
-/

namespace Msgbox

open State

/-! ## What is noted -/

/-- The context that a remote of the conn is to have after the step. A remote without an entry would
    get the one that the conn has. A remote with an entry keeps its own until a callback for one of
    its calls with data returns. -/
def noteContext (c : ConnId) (left : Address → Ptr) (s : State) (i : Input) (a : Address) : Ptr :=
  if s.connStatus.lookup a = none then (s.conn c).connContext
  else match i with
    | .ret =>
      if s.stack.head?.any fun f =>
        f.call.conn = c && f.call.data.isSome && f.call.remote = some a then (s.conn c).connContext
      else left a
    | _ => left a

/-- The step serves the remotes of the conn, and no callback for another conn returns to the status
    of one of them. -/
def servesContexts (c : ConnId) (s : State) (i : Input) : Bool :=
  servesRemotes c s i && match i with
    | .ret => s.stack.head?.all fun f =>
        f.call.conn = c || f.status.all fun sid => !heard s.trace c (s.status sid).remoteAddress
    | _ => true

/-- The running callback for a remote of the conn returns to the remote's status, unless the remote
    was dropped. -/
structure Returns (c : ConnId) (s : State) (f : Frame) : Prop where
  bare : f.call.data = none → f.status = none
  entry : ∀ a, f.call.remote = some a → f.call.data.isSome = true →
    s.connStatus.lookup a = none ∨ s.connStatus.lookup a = f.status
  alone : ∀ a b sid, f.call.remote = some a → heard s.trace c b = true → f.status = some sid →
    s.connStatus.lookup b = some sid → b = a

/-- The statuses of the remotes have the contexts that were noted. -/
structure Keeping (c : ConnId) (left : Address → Ptr) (s : State) : Prop where
  contexts : ∀ a sid, heard s.trace c a = true → s.connStatus.lookup a = some sid →
    (s.status sid).connContext = left a
  frames : ∀ f ∈ s.stack, f.call.conn = c → Returns c s f
  remotes : ∀ p, Obs.queued p ∈ s.trace → p.conn = c → ∀ a, p.remote = some a →
    heard s.trace c a = true

variable {s s' : State} {i : Input} {c : ConnId} {p : PendingCall} {a : Address}
  {left : Address → Ptr}

/-! ## The two halves of a callback -/

/-- Before the callback the conn is given the context of the remote. -/
theorem restoreConn_context (junk : Junk) {data : MsgData} (hdata : p.data = some data)
    (hudp : (s.conn p.conn).protocolType = .udp) (haddr : data.metadata.remoteAddress = some a) :
    (s.restoreConn p junk).2 = s.connStatus.lookup a ∧
      ∀ sid, s.connStatus.lookup a = some sid →
        (s.loaded p junk).connContext = (s.status sid).connContext := by
  unfold loaded restoreConn
  simp only [hdata, if_pos hudp, haddr, Option.getD_some]
  generalize hs₁ : s.modifyConn p.conn _ = s₁
  have hremote : (s₁.conn p.conn).remoteAddress = a := by
    rw [← hs₁]
    simp
  have hlookup : s₁.statusOfConn p.conn = s.connStatus.lookup a := by
    rw [statusOfConn, hremote, ← hs₁]
    rfl
  have hcontext : ∀ sid, (s₁.status sid).connContext = (s.status sid).connContext := by
    rw [← hs₁]
    exact fun _ => rfl
  rw [hlookup]
  cases s.connStatus.lookup a with
  | none => exact ⟨rfl, fun sid hsid => absurd hsid.symm (Option.some_ne_none sid)⟩
  | some sid =>
    refine ⟨rfl, fun sid' hsid => ?_⟩
    rw [← Option.some.inj hsid, ← hcontext sid]
    simp

/-- A call without data restores nothing. -/
private theorem restoreConn_none (junk : Junk) (hdata : p.data = none) :
    (s.restoreConn p junk).2 = none := by
  unfold restoreConn
  rw [hdata]

/-- After the callback the status of the remote has the context of the conn. -/
private theorem saveContext_self {f : Frame} {sid : StatusId} (hstatus : f.status = some sid)
    (hudp : (s.conn f.call.conn).protocolType = .udp) :
    ((s.saveContext f).status sid).connContext = (s.conn f.call.conn).connContext := by
  unfold saveContext
  simp [hstatus, hudp]

/-- Only the two halves of `make_call` change the stack. -/
theorem step_stack (hstep : step s i = some s') (hdeliver : ∀ junk, i ≠ .deliver junk)
    (hret : i ≠ .ret) : s'.stack = s.stack := by
  obtain ⟨s₁, heffects, hlast⟩ := step_effects hstep
  rw [← effects_stack heffects hdeliver hret]
  rcases hlast with rfl | hfinal
  · rfl
  · cases hfinal with
    | drop => exact localDisconnect_stack _ _ _
    | _ => rfl

/-- No callback runs while a conn is read. -/
theorem idle_of_subject (h : InOrder s) {r : ReadIn}
    (hsubject : (Input.read r).subject s = some c) : s.stack = [] := by
  apply h.alone
  intro happ
  rw [Input.subject, happ] at hsubject
  exact absurd hsubject.symm (Option.some_ne_none c)

/-! ## One step -/

/-- A callback goes on while the entries of the remotes stay, or one of them goes. -/
theorem Returns.keep {f : Frame} (h : Returns c s f) (hremotes : ∀ a, f.call.remote = some a →
      heard s.trace c a = true) (hheard : ∀ a, heard s'.trace c a = heard s.trace c a)
    (hlookup : ∀ a, heard s.trace c a = true → s'.connStatus.lookup a = s.connStatus.lookup a ∨
      s'.connStatus.lookup a = none) : Returns c s' f where
  bare := h.bare
  entry a ha hdata := by
    rcases hlookup a (hremotes a ha) with hsame | hnone
    · rw [hsame]
      exact h.entry a ha hdata
    · exact .inl hnone
  alone a b sid ha hb hsid hlookup' := by
    rw [hheard] at hb
    rcases hlookup b hb with hsame | hnone
    · exact h.alone a b sid ha hb hsid (hsame ▸ hlookup')
    · exact absurd (hlookup'.symm.trans hnone) (Option.some_ne_none sid)

/-- The context noted for a remote with an entry changes only when a callback returns. -/
theorem noteContext_known {sid : StatusId} (hlookup : s.connStatus.lookup a = some sid)
    (hret : i ≠ .ret) : noteContext c left s i a = left a := by
  unfold noteContext
  rw [if_neg (by rw [hlookup]; exact Option.some_ne_none sid)]
  split
  · exact absurd rfl hret
  · rfl

/-- New calls for remotes that were heard keep that all are. -/
private theorem remotes_of_record (h : Keeping c left s) {t : List Obs} (new : List Obs)
    (hrecord : t.filter (Obs.tells c) = new ++ s.trace.filter (Obs.tells c))
    (hnew : ∀ p, Obs.queued p ∈ new → ∀ a, p.remote = some a → heard t c a = true) :
    ∀ p, Obs.queued p ∈ t → p.conn = c → ∀ a, p.remote = some a → heard t c a = true := by
  intro p hp hconn a ha
  have htells : (Obs.queued p).tells c = true := decide_eq_true hconn
  rw [← mem_record htells, hrecord] at hp
  rcases List.mem_append.mp hp with hnew' | hold
  · exact hnew p hnew' a ha
  · have hheard := h.remotes p ((mem_record htells).mp hold) hconn a ha
    rw [← heard_filter] at hheard ⊢
    rw [hrecord, heard, List.any_append, Bool.or_eq_true]
    exact .inr hheard

/-- The remotes of the calls that run were heard. -/
theorem Keeping.running (h : Keeping c left s) (hs : Sound s) {f : Frame} (hf : f ∈ s.stack)
    (hconn : f.call.conn = c) : ∀ a, f.call.remote = some a → heard s.trace c a = true := by
  apply h.remotes f.call _ hconn
  rw [← mem_queuedCalls]
  apply hs.running
  exact List.mem_map_of_mem hf

/-- What is aloof from `c` keeps the contexts of its remotes. -/
theorem Keeping.aloof (h : Keeping c left s) (hs : Sound s) (haloof : Aloof c s i s s')
    (hret : i ≠ .ret) (hstack : ∀ f ∈ s'.stack, f.call.conn = c → f ∈ s.stack) :
    Keeping c (noteContext c left s i) s' where
  contexts a sid ha hsid := by
    rw [haloof.heard] at ha
    rw [haloof.lookup a ha] at hsid
    rw [noteContext_known hsid hret, ← h.contexts a sid ha hsid]
    apply haloof.contexts a sid ha hsid
    unfold Input.returnsTo
    split
    · exact absurd rfl hret
    · exact (Option.some_ne_none sid).symm
  frames f hf hconn := by
    have hf := hstack f hf hconn
    exact (h.frames f hf hconn).keep (h.running hs hf hconn) haloof.heard
      fun a ha => .inl (haloof.lookup a ha)
  remotes := by
    refine remotes_of_record h [] haloof.record ?_
    exact fun _ hp => absurd hp List.not_mem_nil

/-- A datagram gives a new remote the context of the conn. -/
theorem Keeping.hears {bytes : List UInt8} (h : Keeping c left s) (hret : i ≠ .ret)
    (hknown : heard s.trace c a = true ∨ s.connStatus.lookup a = none)
    (hbrings : p.Brings c a bytes) (hhears : Hears c s s' a bytes p) (hstack : s'.stack = []) :
    Keeping c (noteContext c left s i) s' where
  contexts b sid hb hsid := by
    rw [(hears_record hbrings hhears b).1, Bool.or_eq_true, decide_eq_true_eq] at hb
    obtain ⟨sid', hsid', hsame, hnew⟩ := hhears.known
    by_cases hba : b = a
    · subst hba
      -- The sender: its status is the old one, or a new one with the conn's context.
      obtain rfl := Option.some.inj (hsid.symm.trans hsid')
      cases hlookup : s.connStatus.lookup b with
      | none =>
        unfold noteContext
        rw [if_pos hlookup]
        exact hnew hlookup
      | some sid₀ =>
        have hheard := hknown.resolve_right (by rw [hlookup]; exact Option.some_ne_none sid₀)
        rw [hlookup, Option.all_some, decide_eq_true_eq] at hsame
        subst hsame
        rw [noteContext_known hlookup hret, hhears.contexts b sid₀ hlookup]
        exact h.contexts b sid₀ hheard hlookup
    -- The other remotes are untouched.
    · have hheard := hb.resolve_left hba
      rw [hhears.lookup b hba] at hsid
      rw [noteContext_known hsid hret, hhears.contexts b sid hsid]
      exact h.contexts b sid hheard hsid
  frames f hf := by
    rw [hstack] at hf
    exact absurd hf List.not_mem_nil
  remotes := by
    have hrecord : s'.trace.filter (Obs.tells c) =
        (.queued p :: (greeting c s a ++ [.datagram c a bytes])) ++
          s.trace.filter (Obs.tells c) := by
      rw [hhears.record]
      simp
    refine remotes_of_record h _ hrecord fun p' hp' b hb => ?_
    have hremote : p'.remote = some a := by
      rcases List.mem_cons.mp hp' with heq | hp'
      · exact Obs.queued.inj heq ▸ hbrings.remote
      · rcases List.mem_append.mp hp' with hp' | hp'
        · unfold greeting at hp'
          split at hp'
          · rw [Obs.queued.inj (List.mem_singleton.mp hp')]
            rfl
          · exact absurd hp' List.not_mem_nil
        · exact Obs.noConfusion (List.mem_singleton.mp hp')
    rw [(hears_record hbrings hhears b).1, decide_eq_true (Option.some.inj (hb.symm.trans hremote)),
      Bool.true_or]

/-- So does parting from a remote, whose context goes with it. -/
theorem Keeping.parts (h : Keeping c left s) (hs : Sound s) (hret : i ≠ .ret)
    (hserving : serving s c (s.conn c).remoteAddress = true) (hparts : Parts c s s' p)
    (hstack : s'.stack = s.stack) : Keeping c (noteContext c left s i) s' := by
  have hheard := hparts.heard
  have hlookup : ∀ a, s'.connStatus.lookup a = s.connStatus.lookup a ∨
      s'.connStatus.lookup a = none := by
    intro a
    rw [hparts.lookup]
    by_cases ha : a = (s.conn c).remoteAddress
    · exact .inr (by rw [ha, AList.lookup_erase])
    · exact .inl (AList.lookup_erase_ne ha)
  refine ⟨fun a sid ha hsid => ?_, fun f hf hconn => ?_, ?_⟩
  · have hsame := (hlookup a).resolve_right (by rw [hsid]; exact Option.some_ne_none sid)
    rw [hsame] at hsid
    rw [hheard] at ha
    rw [noteContext_known hsid hret, hparts.contexts, h.contexts a sid ha hsid]
  · rw [hstack] at hf
    exact (h.frames f hf hconn).keep (h.running hs hf hconn) hheard fun a _ => hlookup a
  · refine remotes_of_record h [.queued p, .disconnected c (s.conn c).remoteAddress]
      hparts.record ?_
    intro p' hp' a ha
    obtain rfl : p' = p := by simpa using hp'
    rw [hparts.call] at ha
    obtain rfl := Option.some.inj ha
    rw [hheard]
    exact (Bool.and_eq_true_iff.mp hserving).1

/-- The callback for a remote begins. -/
theorem Keeping.calls {rest : List PendingCall} {junk : Junk} (h : Keeping c left s) (hs : Sound s)
    (hserves : Serves c s) (hret : i ≠ .ret) (hconn : p.conn = c) (hqueued : Obs.queued p ∈ s.trace)
    (hstack : s.stack = []) : Keeping c (noteContext c left s i) (s.makeCall p rest junk) := by
  rw [makeCall_eq]
  have hheard : ∀ a, heard (.called (s.loaded p junk) p :: s.trace) c a = heard s.trace c a :=
    fun a => by simp [heard]
  refine ⟨fun a sid ha hsid => ?_, fun f hf _ => ?_, ?_⟩
  · rw [hheard] at ha
    have hsid : s.connStatus.lookup a = some sid := hsid
    rw [noteContext_known hsid hret]
    exact h.contexts a sid ha hsid
  · rw [hstack] at hf
    obtain rfl := List.mem_singleton.mp hf
    cases hdata : p.data with
    | none =>
      have hnone := restoreConn_none (s := s) junk hdata
      refine ⟨fun _ => hnone, fun a _ hsome => ?_, fun a b sid _ _ hsid => ?_⟩
      · rw [hdata] at hsome
        exact Bool.noConfusion hsome
      · exact absurd (hsid.symm.trans hnone) (Option.some_ne_none sid)
    | some data =>
      obtain ⟨-, hnone, -⟩ | ⟨a, ha, -, -, hcarries⟩ := hserves.told p hqueued hconn
      · exact absurd (hdata.symm.trans hnone) (Option.some_ne_none data)
      · have hstatus :=
          (restoreConn_context junk hdata (hconn ▸ hserves.isUdp) (hcarries data hdata)).1
        refine ⟨fun hnone => absurd (hdata.symm.trans hnone) (Option.some_ne_none data),
          fun b hb _ => ?_, fun b b' sid hb _ hsid hlookup => ?_⟩
        · obtain rfl := Option.some.inj (ha.symm.trans hb)
          exact .inr hstatus.symm
        · -- Entries of different addresses are different statuses.
          obtain rfl := Option.some.inj (ha.symm.trans hb)
          have hsid' : s.connStatus.lookup a = some sid := hstatus.symm.trans hsid
          rw [← (hs.allocated.status a sid hsid').2.1]
          exact (hs.allocated.status b' sid hlookup).2.1.symm
  · have hrecord : (Obs.called (s.loaded p junk) p :: s.trace).filter (Obs.tells c) =
        [.called (s.loaded p junk) p] ++ s.trace.filter (Obs.tells c) :=
      record_told (o := .called (s.loaded p junk) p) (decide_eq_true hconn) _
    refine remotes_of_record h _ hrecord fun p' hp' => ?_
    exact Obs.noConfusion (List.mem_singleton.mp hp')

/-- A callback returns. -/
private theorem Keeping.returned {f : Frame} {stack : List Frame} (h : Keeping c left s)
    (hs : Sound s)
    (hserves : Serves c s) (hok : servesContexts c s .ret = true) (hstack : s.stack = f :: stack) :
    Keeping c (noteContext c left s .ret) (s.finishCall f stack) := by
  have hf : f ∈ s.stack := hstack ▸ List.mem_cons_self
  rw [finishCall_eq]
  refine ⟨fun a sid ha hsid => ?_, fun f' hf' hconn => ?_, h.remotes⟩
  · show ((s.saveContext f).status sid).connContext = _
    have hold := h.contexts a sid ha hsid
    unfold noteContext
    rw [if_neg (by rw [hsid]; exact Option.some_ne_none sid)]
    simp only [hstack, List.head?_cons, Option.any_some]
    -- A returning callback saves the conn's context in the status of its call.
    by_cases hconn : f.call.conn = c
    · have hreturns := h.frames f hf hconn
      cases hdata : f.call.data with
      | none =>
        rw [saveContext_other (by rw [hreturns.bare hdata]; exact (Option.some_ne_none sid).symm)]
        simpa using hold
      | some data =>
        by_cases hremote : f.call.remote = some a
        -- That is the status of this remote, unless it has parted since.
        · have hentry := (hreturns.entry a hremote (by rw [hdata]; rfl)).resolve_left
            (by rw [hsid]; exact Option.some_ne_none sid)
          have hudp : (s.conn f.call.conn).protocolType = .udp := hconn ▸ hserves.isUdp
          rw [saveContext_self (hentry.symm.trans hsid) hudp, hconn]
          simp [hremote]
        · rw [saveContext_other]
          · simpa [hremote] using hold
          · intro hstatus
            obtain ⟨-, hnone, -⟩ | ⟨b, hb, -⟩ := hserves.told f.call
              (mem_queuedCalls.mp (hs.running _ (List.mem_map_of_mem hf))) hconn
            · exact absurd (hdata.symm.trans hnone) (Option.some_ne_none data)
            · exact hremote (hreturns.alone b a sid hb ha hstatus hsid ▸ hb)
    · -- The status of another conn's callback is not that of one of the remotes.
      have hother := (Bool.and_eq_true_iff.mp hok).2
      simp only [hstack, List.head?_cons, Option.all_some, hconn, decide_false,
        Bool.false_or] at hother
      rw [saveContext_other]
      · simpa [hconn] using hold
      · intro hstatus
        rw [hstatus, Option.all_some, (hs.allocated.status a sid hsid).2.1, ha] at hother
        exact Bool.noConfusion hother
  · have hreturns := h.frames f' (hstack ▸ List.mem_cons_of_mem f hf') hconn
    exact ⟨hreturns.bare, hreturns.entry, hreturns.alone⟩

/-- A step that serves the contexts keeps them as they are noted. -/
theorem keeping_step (hok : servesContexts c s i = true) (hs : Sound s) (horder : InOrder s)
    (hserves : Serves c s) (h : Keeping c left s) (hstep : step s i = some s') :
    Keeping c (noteContext c left s i) s' := by
  have hservesRemotes := (Bool.and_eq_true_iff.mp hok).1
  have hturn := turn_step hservesRemotes hs hserves hstep
  cases i with
  | ret =>
    obtain ⟨f, stack, -, hstack, -, rfl⟩ := step_ret hstep
    exact h.returned hs hserves hok hstack
  | deliver junk =>
    have hret : Input.deliver junk ≠ .ret := Input.noConfusion
    rcases step_deliver hstep with ⟨hphase, heq⟩ | ⟨p, rest, hphase, -, heq⟩
    · cases hturn with
      | aloof haloof =>
        refine h.aloof hs haloof hret fun f hf _ => ?_
        rw [heq] at hf
        exact hf
      | hears hinput => exact Input.noConfusion hinput
      | parts hinput => exact Input.noConfusion hinput
      | calls _ _ hphase' => exact absurd (hphase.symm.trans hphase') (by simp)
    · have hstack := horder.idle hphase
      by_cases hconn : p.conn = c
      · have hqueued := hs.allocated.pending p (by simp [pending, hphase, Phase.saved])
        rw [heq]
        exact h.calls hs hserves hret hconn hqueued hstack
      · cases hturn with
        | aloof haloof =>
          refine h.aloof hs haloof hret fun f hf hf' => ?_
          rw [heq, makeCall_eq] at hf
          rcases List.mem_cons.mp hf with rfl | hf
          · exact absurd hf' hconn
          · exact hf
        | hears hinput => exact Input.noConfusion hinput
        | parts hinput => exact Input.noConfusion hinput
        | calls _ hconn' hphase' =>
          obtain ⟨rfl, -⟩ := List.cons.inj (Phase.delivering.inj (hphase.symm.trans hphase'))
          exact absurd hconn' hconn
  | _ =>
    have hstack := step_stack hstep (fun _ => Input.noConfusion) Input.noConfusion
    cases hturn with
    | aloof haloof =>
      exact h.aloof hs haloof Input.noConfusion fun f hf _ => hstack ▸ hf
    | hears hinput hsubject _ _ hknown hbrings hhears =>
      rw [hinput] at hsubject
      have hempty := hstack.trans (idle_of_subject horder hsubject)
      exact h.hears Input.noConfusion hknown hbrings hhears hempty
    | parts _ hserving hparts => exact h.parts hs Input.noConfusion hserving hparts hstack
    | calls hinput => exact Input.noConfusion hinput

/-! ## Runs -/

/-- Nothing is noted yet. -/
theorem Unheard.keeping (h : Unheard c s) (hnew : ∀ f ∈ s.stack, f.call.conn ≠ c) :
    Keeping c left s where
  contexts a _ ha := by
    rw [← heard_filter, h.record] at ha
    exact Bool.noConfusion ha
  frames f hf hconn := absurd hconn (hnew f hf)
  remotes p hp hconn a ha := by
    have htells : (Obs.queued p).tells c = true := decide_eq_true hconn
    rw [← mem_record htells, h.record] at hp
    rw [Obs.queued.inj (List.mem_singleton.mp hp)] at ha
    exact absurd ha.symm (Option.some_ne_none a)

/-- The callbacks that run when `msg_listen` is called are for conns opened before. -/
theorem listen_stack {s₀ s₁ : State} {address : CString} {callback : Nat} {o : OpenIn}
    (h : machine.Reach (fun s i => plain s i = true) s₀)
    (hlisten : step s₀ (.app (.listen address callback o)) = some s₁) :
    ∀ f ∈ s₁.stack, f.call.conn ≠ s₀.nextConn := by
  intro f hf hconn
  have hs := reach_sound h
  rw [step_stack hlisten (fun _ => Input.noConfusion) Input.noConfusion] at hf
  have hqueued := mem_queuedCalls.mp (hs.running _ (List.mem_map_of_mem hf))
  exact absurd (hs.allocated.queued _ hqueued) (hconn ▸ Nat.lt_irrefl _)

/-- Along every path that serves the remotes the contexts are kept. -/
theorem path_keeping {s₁ s₂ : State} {start : Address → Ptr}
    (h : machine.Reach (fun s i => plain s i = true) s₁) (hunheard : Unheard c s₁)
    (hnew : ∀ f ∈ s₁.stack, f.call.conn ≠ c)
    (hpath : (machine.noting (noteContext c) start).Path (fun s i => servesContexts c s.1 i = true)
      (s₁, start) (s₂, left)) :
    machine.Reach (fun s i => plain s i = true) s₂ ∧ Serves c s₂ ∧ Keeping c left s₂ := by
  have hplain : ∀ s i, servesContexts c s i = true → plain s i = true := fun _ _ hok =>
    (servesRemotes_base (Bool.and_eq_true_iff.mp hok).1).1
  refine hpath.noting_keeps (Q := fun x i => servesContexts c x.1 i = true)
    (fun x i => hplain x.1 i)
    (fun left s => Serves c s ∧ Keeping c left s) h
    ⟨hunheard.serves, hunheard.keeping hnew⟩ ?_
  rintro left s i s' hreach ⟨hserves, hkeeping⟩ hok hstep
  have hs := reach_sound hreach
  have hturn := turn_step (Bool.and_eq_true_iff.mp hok).1 hs hserves hstep
  exact ⟨hserves.turn hs hturn, keeping_step hok hs (reach_inOrder hreach) hserves hkeeping hstep⟩

/-- For every udp conn that `msg_listen` made, and every run from there that serves its remotes:
    when the callback for a call with data of a remote begins, and the conn has an entry for the
    remote, `conn_context` is what the last callback for such a call of the remote left there, or
    for the first one, what the conn had when the remote's entry was made. -/
theorem remote_contexts {s₀ s₁ s₂ : State} {left : Address → Ptr} {address : CString}
    {callback : Nat} {o : OpenIn} (h : machine.Reach (fun s i => plain s i = true) s₀)
    (hlisten : step s₀ (.app (.listen address callback o)) = some s₁)
    (hopens : Input.openFails address true o = false)
    (hudp : (parseAddressStr address ⟨0, 0, .other⟩).1.protocolType = .udp)
    (hpath : (machine.noting (noteContext s₀.nextConn) fun _ => null).Path
      (fun s i => servesContexts s₀.nextConn s.1 i = true) (s₁, fun _ => null) (s₂, left))
    {p : PendingCall} {rest : List PendingCall} {junk : Junk} {s₃ : State} {a : Address}
    (hphase : s₂.phase = .delivering (p :: rest)) (hconn : p.conn = s₀.nextConn)
    (hremote : p.remote = some a) (hdata : p.data.isSome = true)
    (hserving : serving s₂ s₀.nextConn a = true) (hcall : step s₂ (.deliver junk) = some s₃) :
    (s₃.conn s₀.nextConn).connContext = left a := by
  have hreach : machine.Reach (fun s i => plain s i = true) s₁ :=
    h.step (i := .app (.listen address callback o)) rfl hlisten
  have hnew := listen_stack h hlisten
  obtain ⟨-, -, rfl⟩ := step_app hlisten
  have hunheard : Unheard s₀.nextConn (s₀.msgListen address callback o) :=
    unheard_listen (reach_recorded h) hopens hudp
  obtain ⟨hreach₂, hserves, hkeeping⟩ := path_keeping hreach hunheard hnew hpath
  rw [deliver_conn s₂ p rest junk hphase hcall, hconn, Function.update_self]
  obtain ⟨data, hdata⟩ := Option.isSome_iff_exists.mp hdata
  obtain ⟨hheard, hentry⟩ := Bool.and_eq_true_iff.mp hserving
  obtain ⟨sid, hsid⟩ := Option.isSome_iff_exists.mp hentry
  have hqueued := (reach_sound hreach₂).allocated.pending p (by simp [pending, hphase, Phase.saved])
  obtain ⟨hnone, -⟩ | ⟨b, hb, -, -, hcarries⟩ := hserves.told p hqueued hconn
  · exact absurd (hremote.symm.trans hnone) (Option.some_ne_none a)
  -- The call restores the context its remote's status has.
  · obtain rfl := Option.some.inj (hremote.symm.trans hb)
    have hcontext :=
      (restoreConn_context junk hdata (hconn ▸ hserves.isUdp) (hcarries data hdata)).2
    rw [hcontext sid hsid, hkeeping.contexts a sid hheard hsid]

/-- The callback for `msg_connection_ready` stores 5, which the callback for the message finds. -/
theorem remote_contexts_stored :
    ∃ (s₂ s₃ : State) (left : Address → Ptr), machine.Reach (fun s i => plain s i = true) s₂ ∧
      step s₂ (.deliver {}) = some s₃ ∧ left ⟨1, 1, .udp⟩ = 5 ∧
      (s₃.conn 0).connContext = left ⟨1, 1, .udp⟩ := by
  let address : CString := ['u', 'd', 'p', ':', '/', '/', '*', ':', '8', '0']
  have hrun : ((step State.init (.app (.listen address 0 { socket := .ok 3 }))).bind fun s₁ =>
      ((machine.noting (noteContext 0) fun _ => null).runFrom (fun s i => servesContexts 0 s.1 i)
        (s₁, fun _ => null)
        [.env (.datagram 3 messageDatagram), .runloop (.ready [{ pollin := true }]), .visit none,
          .read { peek := .upTo 8 }, .read {}, .endPoll, .timeouts 0, .deliver {}, .ret,
          .deliver {}, .app (.setConnContext 0 5), .ret]).map fun s : State × (Address → Ptr) =>
        (s.1.phase.saved.head?.map fun p : PendingCall =>
            (p.conn, decide (p.remote = some ⟨1, 1, .udp⟩), p.data.isSome),
          serving s.1 0 ⟨1, 1, .udp⟩, (step s.1 (.deliver {})).isSome, s.2 ⟨1, 1, .udp⟩)) =
      some (some (0, true, true), true, true, 5) := by decide +kernel
  obtain ⟨s₁, hlisten, hrun⟩ := Option.bind_eq_some_iff.mp hrun
  obtain ⟨⟨s₂, left⟩, hrun, hview⟩ := Option.map_eq_some_iff.mp hrun
  simp only [Prod.mk.injEq] at hview
  obtain ⟨hhead, hserving, hstep, hleft⟩ := hview
  obtain ⟨p, hhead, hp⟩ := Option.map_eq_some_iff.mp hhead
  obtain ⟨rest, hphase⟩ := Phase.delivering_of_saved hhead
  simp only [Prod.mk.injEq, decide_eq_true_eq] at hp
  obtain ⟨s₃, hcall⟩ := Option.isSome_iff_exists.mp hstep
  have hpath : (machine.noting (noteContext 0) fun _ => null).Path
      (fun s i => servesContexts 0 s.1 i = true) (s₁, fun _ => null) (s₂, left) :=
    Machine.Path.refl.of_run (fun _ _ h => h) hrun
  have hcontext := remote_contexts .init hlisten (by decide) (by decide) hpath hphase hp.1 hp.2.1
    hp.2.2
    hserving hcall
  have hreach : machine.Reach (fun s i => plain s i = true) s₁ :=
    Machine.Reach.init.step (i := .app (.listen address 0 { socket := .ok 3 })) rfl hlisten
  have hreach₂ := (hpath.noting_keeps (Q := fun x i => servesContexts 0 x.1 i = true)
    (fun _ _ hok => (servesRemotes_base (Bool.and_eq_true_iff.mp hok).1).1) (fun _ _ => True) hreach
    trivial fun _ _ _ _ _ _ _ _ => trivial).1
  exact ⟨s₂, s₃, left, hreach₂, hcall, hleft, hcontext⟩

end Msgbox
