import TableGate.Proofs.Service.SchemaPlans
import TableGate.Proofs.Service.Sending

/-! # Schema changes at work

The statements of a schema change are sent one after the other, up to the first that fails: the database
refuses it, or there is no connection to send it over. What is remembered has changed by then through the steps
before it, and through no others. If the pool of the connection cannot be opened, no step is begun. -/

namespace TableGate

theorem Service.applyEffects_append (s : Service) (connection table : String) (xs ys : List CatalogEffect) :
    s.applyEffects connection table (xs ++ ys) =
      (s.applyEffects connection table xs).applyEffects connection table ys :=
  List.foldl_append ..

namespace Session

/-- The text of a step. -/
def sqlOf (c : Connection) (step : SchemaStep) : String :=
  step.statement.print c.dialect

/-- The statements of some steps have been sent, the effects of some have been applied, and a number of answers
has been taken. -/
structure Advances (s : Session) (c : Connection) (table : String) (tried done : List SchemaStep)
    (answers : ℕ) (next : Session) : Prop where
  sent : next.sent = s.sent ++ tried.map fun step => (c.name, ⟨sqlOf c step, []⟩)
  replies : next.replies = s.replies.drop answers
  service : next.service = s.service.afterSteps c.name table done

/-- How steps are carried out, the first one at a position: up to one that is refused, or for which there is no
connection so that it is not sent, with those before it in effect; or all of them. -/
inductive RunsTo (s : Session) (c : Connection) (table : String) (position : ℕ)
    (steps : List SchemaStep) : Except Fault (List String) × Session → Prop
  | refused {k : ℕ} {step : SchemaStep} {refusal : Refusal} {next : Session}
      (hstep : steps[k]? = some step) (hsettled : ∀ j < k, (s.reply j).settled = .ok ())
      (hrefused : s.reply k = .refused refusal)
      (hnext : s.Advances c table (steps.take (k + 1)) (steps.take k) (k + 1) next) :
      RunsTo s c table position steps
        (.error (.schemaOperation (k + position) (sqlOf c step) refusal.fault.message), next)
  | unreachable {k : ℕ} {step : SchemaStep} {refusal : Refusal} {next : Session}
      (hstep : steps[k]? = some step) (hsettled : ∀ j < k, (s.reply j).settled = .ok ())
      (hunreachable : s.reply k = .unreachable refusal)
      (hnext : s.Advances c table (steps.take k) (steps.take k) (k + 1) next) :
      RunsTo s c table position steps
        (.error (.schemaOperation (k + position) (sqlOf c step) refusal.fault.message), next)
  | done {next : Session} (hsettled : ∀ j < steps.length, (s.reply j).settled = .ok ())
      (hnext : s.Advances c table steps steps steps.length next) :
      RunsTo s c table position steps (.ok (steps.map (sqlOf c)), next)

variable {s next : Session} {c : Connection} {table : String} {position : ℕ} {step : SchemaStep}
  {rest : List SchemaStep}

/-! ## One step -/

/-- The session after a step that has succeeded. -/
def afterStep (s : Session) (c : Connection) (table : String) (step : SchemaStep) : Session :=
  let next := (s.send c ⟨sqlOf c step, []⟩).2
  { next with service := next.service.applyEffects c.name table step.effects }

theorem reply_afterStep (s : Session) (c : Connection) (table : String) (step : SchemaStep) (k : ℕ) :
    (s.afterStep c table step).reply k = s.reply (k + 1) := by
  simp [afterStep, send_replies, reply, List.getElem?_tail]

theorem runSteps_failed {fault : Fault} (h : (s.reply 0).settled = .error fault) :
    s.runSteps c table position (step :: rest) =
      (.error (.schemaOperation position (sqlOf c step) fault.message),
        (s.send c ⟨sqlOf c step, []⟩).2) := by
  rw [runSteps, ← sqlOf]
  simp only [send_fst, h]

theorem runSteps_settled (h : (s.reply 0).settled = .ok ()) :
    s.runSteps c table position (step :: rest) =
      (((s.afterStep c table step).runSteps c table (position + 1) rest).1.map (sqlOf c step :: ·),
        ((s.afterStep c table step).runSteps c table (position + 1) rest).2) := by
  rw [runSteps, ← sqlOf, afterStep]
  simp only [send_fst, h]
  split <;> rename_i hrun <;> rw [hrun] <;> rfl

/-! ## All steps -/

/-- A step that fails at once is the end of the run. -/
theorem runsTo_failed {refusal : Refusal}
    (h : s.reply 0 = .refused refusal ∨ s.reply 0 = .unreachable refusal) :
    s.RunsTo c table position (step :: rest)
      (.error (.schemaOperation position (sqlOf c step) refusal.fault.message),
        (s.send c ⟨sqlOf c step, []⟩).2) := by
  have hstep : (step :: rest)[0]? = some step := rfl
  have hreplies := (s.send_replies c ⟨sqlOf c step, []⟩).trans List.drop_one.symm
  have hservice := s.send_service c ⟨sqlOf c step, []⟩
  suffices hrun : s.RunsTo c table position (step :: rest)
      (.error (.schemaOperation (0 + position) (sqlOf c step) refusal.fault.message),
        (s.send c ⟨sqlOf c step, []⟩).2) by
    rwa [Nat.zero_add] at hrun
  rcases h with hrefused | hunreachable
  · have hsent := send_sent (s := s) (by rw [hrefused]; rfl) c ⟨sqlOf c step, []⟩
    exact .refused hstep (by simp) hrefused ⟨hsent, hreplies, hservice⟩
  · have hsent : (s.send c ⟨sqlOf c step, []⟩).2.sent = s.sent := by rw [send_unreachable hunreachable]
    exact .unreachable hstep (by simp) hunreachable
      ⟨hsent.trans (List.append_nil _).symm, hreplies, hservice⟩

theorem Advances.cons {tried done : List SchemaStep} {answers : ℕ} (hfirst : (s.reply 0).reached = true)
    (h : (s.afterStep c table step).Advances c table tried done answers next) :
    s.Advances c table (step :: tried) (step :: done) (answers + 1) next where
  sent := by
    rw [h.sent, afterStep, send_sent hfirst, List.map_cons, List.append_assoc, List.singleton_append]
  replies := by rw [h.replies, afterStep, send_replies, List.drop_tail]
  service := by
    rw [h.service, Service.afterSteps, Service.afterSteps, List.flatMap_cons, Service.applyEffects_append,
      afterStep, send_service]

/-- Behind a step that has succeeded the run goes on. -/
theorem RunsTo.cons {result : Except Fault (List String) × Session} (hfirst : (s.reply 0).settled = .ok ())
    (hreached : (s.reply 0).reached = true)
    (h : (s.afterStep c table step).RunsTo c table (position + 1) rest result) :
    s.RunsTo c table position (step :: rest) (result.1.map (sqlOf c step :: ·), result.2) := by
  have hsettled {k : ℕ} (h : ∀ j < k, ((s.afterStep c table step).reply j).settled = .ok ()) :
      ∀ j < k + 1, (s.reply j).settled = .ok () := by
    rintro (_ | j) hj
    · exact hfirst
    · rw [← reply_afterStep s c table step j]
      exact h j (Nat.lt_of_succ_lt_succ hj)
  cases h with
  | @refused k _ _ _ hstep hearlier hrefused hnext =>
      rw [reply_afterStep] at hrefused
      rw [← Nat.add_assoc, Nat.add_right_comm]
      exact .refused hstep (hsettled hearlier) hrefused (hnext.cons hreached)
  | @unreachable k _ _ _ hstep hearlier hunreachable hnext =>
      rw [reply_afterStep] at hunreachable
      rw [← Nat.add_assoc, Nat.add_right_comm]
      exact .unreachable hstep (hsettled hearlier) hunreachable (hnext.cons hreached)
  | done hall hnext => exact .done (hsettled hall) (hnext.cons hreached)

/-- Whatever the database answers, steps are carried out up to the first that fails. -/
theorem runsTo_runSteps (s : Session) (c : Connection) (table : String) (position : ℕ)
    (steps : List SchemaStep) :
    s.RunsTo c table position steps (s.runSteps c table position steps) := by
  induction steps generalizing s position with
  | nil => exact .done (by simp) ⟨by simp, by simp, rfl⟩
  | cons step rest ih =>
      rcases (s.reply 0).settled_cases with ⟨hsettled, hreached⟩ | ⟨refusal, hfailed, hreply⟩
      · rw [runSteps_settled hsettled]
        exact (ih (s.afterStep c table step) (position + 1)).cons hsettled hreached
      · rw [runSteps_failed hfailed]
        exact runsTo_failed hreply

/-- An open pool is not seen in what is sent, answered and remembered. -/
theorem RunsTo.of_pools {pools : NameMap Pool} {steps : List SchemaStep}
    {result : Except Fault (List String) × Session}
    (h : { s with pools }.RunsTo c table position steps result) : s.RunsTo c table position steps result := by
  cases h with
  | refused hstep hsettled hrefused hnext =>
      exact .refused hstep hsettled hrefused ⟨hnext.sent, hnext.replies, hnext.service⟩
  | unreachable hstep hsettled hunreachable hnext =>
      exact .unreachable hstep hsettled hunreachable ⟨hnext.sent, hnext.replies, hnext.service⟩
  | done hsettled hnext => exact .done hsettled ⟨hnext.sent, hnext.replies, hnext.service⟩

/-- A schema change that cannot be planned sends nothing and changes nothing, and neither does one for which the
pool of its connection cannot be opened: its fault is that of the opening. Of all others the statements are sent
in order up to the first that fails, which the error names, and exactly the steps before it have taken effect;
if none fails, all have, and the answer lists the statements. -/
theorem applySchema_cases (s : Session) (connection table : String) (change : SchemaChange) :
    (∃ fault, s.service.planSchema connection table change = .error fault ∧
      s.applySchema connection table change = (.error fault, s)) ∨
    ∃ c steps, s.service.planSchema connection table change = .ok (c, steps) ∧
      ((∃ refusal, s.CutOff c refusal ∧ s.applySchema connection table change =
          (.error refusal.fault, { s with replies := s.replies.tail })) ∨
        (∀ refusal, ¬s.CutOff c refusal) ∧
          s.RunsTo c table 0 steps (s.applySchema connection table change)) := by
  rw [applySchema]
  cases s.service.planSchema connection table change with
  | error fault => exact .inl ⟨fault, rfl, rfl⟩
  | ok planned =>
      obtain ⟨c, steps⟩ := planned
      refine .inr ⟨c, steps, rfl, ?_⟩
      simp only [runAll]
      rcases s.cutOff_or_open c with ⟨refusal, hcutOff⟩ | hopen
      · rw [connect_cutOff hcutOff]
        exact .inl ⟨refusal, hcutOff, rfl⟩
      · rw [connect_open hopen]
        exact .inr ⟨hopen, (runsTo_runSteps _ c table 0 steps).of_pools⟩

/-- The file of a database cannot be opened. A table is to be created there, which takes one statement. It is not
sent, and the fault is none of a step. -/
theorem applySchema_cutOff :
    let c : Connection := ⟨"main", .sqlite, "sqlite:///nonexistent/x.db", .shared, 1⟩
    let refusal : Refusal := .database "(code: 14) unable to open database file"
    let s : Session := {
      service := ⟨⟨.ofList [("main", c)], none, .empty⟩,
        Vault.new .standard ⟨[⟨1, List.replicate 32 7⟩], ⟨1, List.replicate 32 7⟩⟩ [] .chacha20Poly1305,
        .empty, .guarded⟩
      replies := [.unreachable refusal] }
    let change : SchemaChange := .createTable { columns := [{ name := "id", type := .increments }] }
    let result := s.applySchema "main" "users" change
    ∃ step, s.service.planSchema "main" "users" change = .ok (c, [step]) ∧
      result.1 = .error refusal.fault ∧ result.2.sent = [] ∧ ¬s.RunsTo c "users" 0 [step] result := by
  intro c refusal s change result
  obtain ⟨step, hplan⟩ : ∃ step, s.service.planSchema "main" "users" change = .ok (c, [step]) := ⟨_, rfl⟩
  have hresult : result = (.error refusal.fault, { s with replies := [] }) := rfl
  refine ⟨step, hplan, by rw [hresult], by rw [hresult], fun hrun => ?_⟩
  rw [hresult] at hrun
  cases hrun

end Session

end TableGate
