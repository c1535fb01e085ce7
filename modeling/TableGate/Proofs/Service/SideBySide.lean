import TableGate.Proofs.Service.Connections
import TableGate.Proofs.Service.Faults

/-! # Two sessions side by side

Two sessions are compared by what one connection can see of them. A call on another connection is not seen, and
the same call on the connection itself does the same in both. -/

namespace TableGate

theorem Plan.For.found {s : Service} {connection : String} {changesSchema : Bool} {plan : Plan}
    (h : plan.For s connection changesSchema) : s.registry.find? connection = .ok plan.connection := by
  cases h with
  | statement hp => exact hp.found
  | steps hc _ _ => exact hc

namespace Session

variable {s t u : Session} {b : String} {c : Connection} {α β : Type}

/-- The statements that have been sent to a connection, in order. -/
def sentTo (s : Session) (connection : String) : List (String × Statement) :=
  s.sent.filter fun entry => entry.1 == connection

/-- A connection does not tell the sessions apart: it is known alike, has been sent the same, and its pool has
the same counts. -/
structure AlikeOn (s t : Session) (connection : String) : Prop where
  service : s.service.AlikeOn t.service connection
  sent : s.sentTo connection = t.sentTo connection
  pool : s.pools.get? connection = t.pools.get? connection

/-- The same answers are still to come, beside that. -/
structure TwinOn (s t : Session) (connection : String) : Prop extends AlikeOn s t connection where
  replies : s.replies = t.replies

namespace TwinOn

theorem symm (h : s.TwinOn t b) : t.TwinOn s b :=
  ⟨⟨h.service.symm, h.sent.symm, h.pool.symm⟩, h.replies.symm⟩

theorem trans (h : s.TwinOn t b) (h' : t.TwinOn u b) : s.TwinOn u b :=
  ⟨⟨h.service.trans h'.service, h.sent.trans h'.sent, h.pool.trans h'.pool⟩, h.replies.trans h'.replies⟩

end TwinOn

/-! ## Calls on another connection -/

namespace AlikeOn

theorem connect_left (h : s.AlikeOn t b) (hc : c.name ≠ b) : (s.connect c).2.AlikeOn t b := by
  rcases s.cutOff_or_open c with ⟨refusal, hcutOff⟩ | hopen
  · rw [connect_cutOff hcutOff]
    exact ⟨h.service, h.sent, h.pool⟩
  · rw [connect_open hopen]
    exact ⟨h.service, h.sent, by rw [NameMap.get?_insert, if_neg hc.symm, h.pool]⟩

theorem send_left (h : s.AlikeOn t b) (hc : c.name ≠ b) (statement : Statement) :
    (s.send c statement).2.AlikeOn t b where
  service := by
    rw [send_service]
    exact h.service
  sent := by
    cases hreply : s.reply 0 with
    | unreachable refusal =>
        rw [send_unreachable hreply]
        exact h.sent
    | _ =>
        rw [sentTo, send_sent (by rw [hreply]; rfl), List.filter_append, List.filter_singleton,
          beq_false_of_ne hc]
        exact (List.append_nil _).trans h.sent
  pool := (send_pool_of_ne hc.symm s statement).trans h.pool

theorem runSteps_left (h : s.AlikeOn t b) (hc : c.name ≠ b) (table : String) (position : ℕ)
    (steps : List SchemaStep) : (s.runSteps c table position steps).2.AlikeOn t b := by
  induction steps generalizing s position with
  | nil => exact h
  | cons step rest ih =>
      have hsend := h.send_left hc ⟨sqlOf c step, []⟩
      rcases (s.reply 0).settled_cases with ⟨hsettled, -⟩ | ⟨refusal, hfailed, -⟩
      · rw [runSteps_settled hsettled]
        have hnext : (s.afterStep c table step).AlikeOn t b :=
          ⟨hsend.service.applyEffects_left hc table step.effects, hsend.sent, hsend.pool⟩
        exact ih hnext _
      · rw [runSteps_failed hfailed]
        exact hsend

theorem runAll_left (h : s.AlikeOn t b) (hc : c.name ≠ b) (table : String) (steps : List SchemaStep) :
    (s.runAll c table steps).2.AlikeOn t b := by
  have hconnect := h.connect_left hc
  rw [runAll]
  split <;> rename_i next heq <;> rw [heq] at hconnect
  · exact hconnect
  · exact hconnect.runSteps_left hc table 0 steps

theorem perform_left (h : s.AlikeOn t b) {x : Except Fault (Prepared α)}
    (hx : ∀ p, x = .ok p → p.connection.name ≠ b) (f : α → β) :
    (s.perform (x.map (·.map f))).2.AlikeOn t b := by
  cases x with
  | error fault => exact h
  | ok p => exact h.send_left (hx p rfl) p.statement

theorem follow_left (h : s.AlikeOn t b) {x : Except Fault Plan}
    (hx : ∀ plan, x = .ok plan → plan.connection.name ≠ b) : (s.follow x).2.AlikeOn t b := by
  cases x with
  | error fault => exact h
  | ok plan =>
      have hc := hx plan rfl
      cases plan with
      | statement p => exact h.send_left hc p.statement
      | steps c table steps => exact h.runAll_left hc table steps

theorem change_left (h : s.AlikeOn t b) {service : Except Fault Service}
    (hservice : ∀ next, service = .ok next → next.AlikeOn t.service b) : (s.change service).2.AlikeOn t b := by
  cases service with
  | error fault => exact h
  | ok next => exact ⟨hservice next rfl, h.sent, h.pool⟩

/-- A call on another connection is not seen. -/
theorem call_left (h : s.AlikeOn t b) {call : Call} {name : String} (hcall : call.connection? = some name)
    (hname : name ≠ b) : (s.call call).2.AlikeOn t b := by
  -- Whatever a call finds under its name has this name.
  have hfound {c : Connection} (hc : s.service.registry.find? name = .ok c) : c.name ≠ b :=
    h.service.named name c hc ▸ hname
  cases call with
  | request r nonces =>
      cases hcall
      have hfollow := h.follow_left (x := s.service.plan nonces r)
        fun plan hplan => hfound (Service.for_plan hplan).found
      rw [← respond_eq] at hfollow
      exact hfollow
  | selectRaw connection statement =>
      cases hcall
      exact h.perform_left (fun p hp => hfound (Service.for_selectRaw hp).found) _
  | executeRaw connection statement =>
      cases hcall
      exact h.perform_left (fun p hp => hfound (Service.for_executeRaw hp).found) _
  | health connection =>
      cases hcall
      exact h.perform_left (fun p hp => hfound (Service.for_health hp).found) _
  | encrypt connection text nonce => exact h
  | decrypt connection text => exact h
  | registerColumn connection table column =>
      cases hcall
      refine h.change_left fun next hnext => ?_
      rw [Service.registerColumn_eq] at hnext
      obtain ⟨c, hc, rfl⟩ := Except.map_eq_ok.mp hnext
      exact h.service.applyEffect_left (hfound hc) table _
  | enableSoftDelete connection table column =>
      cases hcall
      refine h.change_left fun next hnext => ?_
      rw [Service.enableSoftDelete_eq] at hnext
      obtain ⟨c, hc, rfl⟩ := Except.map_eq_ok.mp hnext
      exact h.service.applyEffect_left (hfound hc) table _
  | resolve connection =>
      refine h.change_left fun next hnext => ?_
      obtain ⟨found, hresolve, rfl⟩ := Except.map_eq_ok.mp hnext
      exact h.service.resolve_left hresolve
  | rotateKey bytes => cases hcall

end AlikeOn

/-! ## The same call on both sides -/

namespace TwinOn

/-- The pool of the connection can be opened in both sessions, or in none. -/
theorem connect (h : s.TwinOn t c.name) :
    (s.connect c).1 = (t.connect c).1 ∧ (s.connect c).2.TwinOn (t.connect c).2 c.name := by
  have hcutOff (refusal : Refusal) : s.CutOff c refusal ↔ t.CutOff c refusal := by
    rw [CutOff, CutOff, h.pool, h.replies]
  rcases s.cutOff_or_open c with ⟨refusal, hs⟩ | hopen
  · rw [connect_cutOff hs, connect_cutOff ((hcutOff refusal).mp hs)]
    exact ⟨rfl, ⟨h.service, h.sent, h.pool⟩, congrArg List.tail h.replies⟩
  · rw [connect_open hopen, connect_open fun refusal => mt (hcutOff refusal).mpr (hopen refusal)]
    have hpool : s.pool c = t.pool c := by rw [Session.pool, Session.pool, h.pool]
    refine ⟨rfl, ⟨h.service, h.sent, ?_⟩, h.replies⟩
    rw [NameMap.get?_insert, NameMap.get?_insert, if_pos rfl, if_pos rfl, hpool]

/-- A statement that is sent to the connection gets the same answer. -/
theorem send (h : s.TwinOn t c.name) (statement : Statement) :
    (s.send c statement).1 = (t.send c statement).1 ∧
      (s.send c statement).2.TwinOn (t.send c statement).2 c.name := by
  have hreply : s.reply 0 = t.reply 0 := by rw [reply, reply, h.replies]
  refine ⟨by rw [send_fst, send_fst, hreply], ⟨?_, ?_, ?_⟩, ?_⟩
  · rw [send_service, send_service]
    exact h.service
  · cases ht : t.reply 0 with
    | unreachable refusal =>
        rw [send_unreachable (hreply.trans ht), send_unreachable ht]
        exact h.sent
    | _ =>
        rw [sentTo, sentTo, send_sent (by rw [hreply, ht]; rfl), send_sent (by rw [ht]; rfl),
          List.filter_append, List.filter_append]
        exact congrArg (· ++ _) h.sent
  · have hpool : s.pool c = t.pool c := by rw [Session.pool, Session.pool, h.pool]
    rw [Session.send, Session.send, h.replies, hpool]
    split <;> simp only [NameMap.get?_insert, h.pool]
  · rw [send_replies, send_replies, h.replies]

theorem runSteps (h : s.TwinOn t c.name) (table : String) (position : ℕ) (steps : List SchemaStep) :
    (s.runSteps c table position steps).1 = (t.runSteps c table position steps).1 ∧
      (s.runSteps c table position steps).2.TwinOn (t.runSteps c table position steps).2 c.name := by
  induction steps generalizing s t position with
  | nil => exact ⟨rfl, h⟩
  | cons step rest ih =>
      obtain ⟨hreply, hsend⟩ := h.send ⟨sqlOf c step, []⟩
      rw [send_fst, send_fst] at hreply
      rcases (s.reply 0).settled_cases with ⟨hsettled, -⟩ | ⟨refusal, hfailed, -⟩
      · rw [runSteps_settled hsettled, runSteps_settled (hreply ▸ hsettled)]
        have hnext : (s.afterStep c table step).TwinOn (t.afterStep c table step) c.name :=
          ⟨⟨hsend.service.applyEffects c.name table step.effects, hsend.sent, hsend.pool⟩, hsend.replies⟩
        obtain ⟨hrest, hlast⟩ := ih hnext (position + 1)
        exact ⟨congrArg (Except.map (sqlOf c step :: ·)) hrest, hlast⟩
      · rw [runSteps_failed hfailed, runSteps_failed (hreply ▸ hfailed)]
        exact ⟨rfl, hsend⟩

theorem runAll (h : s.TwinOn t c.name) (table : String) (steps : List SchemaStep) :
    (s.runAll c table steps).1 = (t.runAll c table steps).1 ∧
      (s.runAll c table steps).2.TwinOn (t.runAll c table steps).2 c.name := by
  obtain ⟨hopened, hconnect⟩ := h.connect
  rw [Session.runAll, Session.runAll]
  split <;> rename_i next heq <;> rw [heq] at hopened hconnect <;>
    split <;> rename_i other hother <;> rw [hother] at hopened hconnect
  · exact ⟨congrArg Except.error (Except.error.inj hopened), hconnect⟩
  · cases hopened
  · cases hopened
  · exact hconnect.runSteps table 0 steps

theorem perform (h : s.TwinOn t b) {x : Except Fault (Prepared α)}
    (hx : ∀ p, x = .ok p → p.connection.name = b) (f : α → β) :
    (s.perform (x.map (·.map f))).1 = (t.perform (x.map (·.map f))).1 ∧
      (s.perform (x.map (·.map f))).2.TwinOn (t.perform (x.map (·.map f))).2 b := by
  cases x with
  | error fault => exact ⟨rfl, h⟩
  | ok p =>
      obtain rfl := hx p rfl
      obtain ⟨hreply, hsend⟩ := h.send p.statement
      exact ⟨congrArg (p.map f).read hreply, hsend⟩

theorem follow (h : s.TwinOn t b) {x : Except Fault Plan}
    (hx : ∀ plan, x = .ok plan → plan.connection.name = b) :
    (s.follow x).1 = (t.follow x).1 ∧ (s.follow x).2.TwinOn (t.follow x).2 b := by
  cases x with
  | error fault => exact ⟨rfl, h⟩
  | ok plan =>
      obtain rfl := hx plan rfl
      cases plan with
      | statement p =>
          obtain ⟨hreply, hsend⟩ := h.send p.statement
          exact ⟨congrArg p.read hreply, hsend⟩
      | steps c table steps =>
          obtain ⟨hresult, hlast⟩ := h.runAll table steps
          exact ⟨congrArg (Except.map _) hresult, hlast⟩

theorem change (h : s.TwinOn t b) {x : Except Fault α} {f g : α → Service}
    (hfg : ∀ a, x = .ok a → (f a).AlikeOn (g a) b) :
    (s.change (x.map f)).1 = (t.change (x.map g)).1 ∧
      (s.change (x.map f)).2.TwinOn (t.change (x.map g)).2 b := by
  cases x with
  | error fault => exact ⟨rfl, h⟩
  | ok a => exact ⟨rfl, ⟨hfg a rfl, h.sent, h.pool⟩, h.replies⟩

/-- A call on the connection, or a new key, does the same in both sessions. -/
theorem call (h : s.TwinOn t b) {call : Call} (hcall : ∀ name, call.connection? = some name → name = b) :
    (s.call call).1 = (t.call call).1 ∧ (s.call call).2.TwinOn (t.call call).2 b := by
  have hfound {c : Connection} (hc : s.service.registry.find? b = .ok c) : c.name = b :=
    h.service.named b c hc
  cases call with
  | request r nonces =>
      obtain rfl := hcall r.connection rfl
      have hrespond : (s.respond nonces r).1 = (t.respond nonces r).1 ∧
          (s.respond nonces r).2.TwinOn (t.respond nonces r).2 r.connection := by
        rw [respond_eq, respond_eq, ← h.service.plan nonces]
        exact h.follow fun plan hplan => hfound (Service.for_plan hplan).found
      exact ⟨congrArg (fun r => some (Except.map Answer.data r)) hrespond.1, hrespond.2⟩
  | selectRaw name statement =>
      obtain rfl := hcall name rfl
      have hsame : s.service.selectRaw name statement = t.service.selectRaw name statement :=
        h.service.bind_find? fun _ _ => rfl
      rw [Session.call, Session.call, ← hsame]
      have hperform := h.perform (x := s.service.selectRaw name statement)
        (fun p hp => hfound (Service.for_selectRaw hp).found) fun rows => Answer.data (.rows rows)
      exact ⟨congrArg some hperform.1, hperform.2⟩
  | executeRaw name statement =>
      obtain rfl := hcall name rfl
      have hsame : s.service.executeRaw name statement = t.service.executeRaw name statement :=
        h.service.bind_find? fun _ _ => rfl
      rw [Session.call, Session.call, ← hsame]
      have hperform := h.perform (x := s.service.executeRaw name statement)
        (fun p hp => hfound (Service.for_executeRaw hp).found) fun info => Answer.data (.affected info)
      exact ⟨congrArg some hperform.1, hperform.2⟩
  | health name =>
      obtain rfl := hcall name rfl
      have hsame : s.service.health name = t.service.health name :=
        h.service.bind_find? fun _ _ => rfl
      rw [Session.call, Session.call, ← hsame]
      have hperform := h.perform (x := s.service.health name)
        (fun p hp => hfound (Service.for_health hp).found) Answer.healthy
      exact ⟨congrArg some hperform.1, hperform.2⟩
  | encrypt name text nonce =>
      obtain rfl := hcall name rfl
      exact ⟨congrArg (fun r => some (Except.map Answer.text r)) (h.service.encrypt text nonce), h⟩
  | decrypt name text =>
      obtain rfl := hcall name rfl
      exact ⟨congrArg (fun r => some (Except.map Answer.text r)) (h.service.decrypt text), h⟩
  | registerColumn name table column =>
      have hchange := h.change (x := s.service.registry.find? name) fun c _ =>
        h.service.applyEffect c.name table (.registerEncrypted column)
      rw [← Service.registerColumn_eq, h.service.find?, ← Service.registerColumn_eq] at hchange
      exact ⟨congrArg (fun r => some (Except.map _ r)) hchange.1, hchange.2⟩
  | enableSoftDelete name table column =>
      have hchange := h.change (x := s.service.registry.find? name) fun c _ =>
        h.service.applyEffect c.name table (.enableSoftDelete (column.getD defaultSoftDelete))
      rw [← Service.enableSoftDelete_eq, h.service.find?, ← Service.enableSoftDelete_eq] at hchange
      exact ⟨congrArg (fun r => some (Except.map _ r)) hchange.1, hchange.2⟩
  | resolve name =>
      have hfind : s.service.registry.find? name = t.service.registry.find? name :=
        congrFun h.service.find? name
      cases hc : s.service.registry.find? name with
      | error fault =>
          rw [Session.call, Session.call, Registry.resolve_eq_error hc,
            Registry.resolve_eq_error (hfind ▸ hc)]
          exact ⟨rfl, h⟩
      | ok c =>
          obtain ⟨next, hnext⟩ := Registry.exists_resolve hc
          obtain ⟨other, hother⟩ := Registry.exists_resolve (hfind ▸ hc)
          rw [Session.call, Session.call, hnext, hother]
          have hservice := ((h.service.resolve_left hnext).symm.resolve_left hother).symm
          exact ⟨rfl, ⟨hservice, h.sent, h.pool⟩, h.replies⟩
  | rotateKey bytes =>
      rw [Session.call, Session.call, Service.rotateKey_eq, Service.rotateKey_eq, ← h.service.secrets.keys]
      cases s.service.vault.keys.rotate bytes with
      | none => exact ⟨rfl, h⟩
      | some rotated =>
          obtain ⟨hresult, hlast⟩ := h.change (x := rotated) fun keys _ => h.service.withKeys keys
          refine ⟨?_, hlast⟩
          simp only [Option.map_some, hresult, hlast.service.secrets.keys]

end TwinOn

end Session

end TableGate
