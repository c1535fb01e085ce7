import TableGate.Proofs.Service.Plans
import TableGate.Proofs.Service.SchemaRuns
import TableGate.Proofs.Vault.Rows

/-! # Faults before any effect

A connection that is not there, a request that is not understood or cannot be compiled, and a value that cannot
be encrypted are found before anything is sent. What may go wrong from then on is told apart by its kind. -/

namespace TableGate

/-- The kinds of faults that leave everything as it was. -/
def FaultKind.early : List FaultKind :=
  [.connectionNotFound, .querySpec, .sqlCompilation, .encryption]

/-- The fault is of another kind. -/
def Fault.Late (fault : Fault) : Prop :=
  fault.kind ∉ FaultKind.early

variable {α β : Type} {s : Service} {connection table : String} {nonces : Nonces}

/-! ## Reading answers -/

namespace Reply

open Except.FailsWith

theorem late_refusal (refusal : Refusal) : refusal.fault.Late := by
  cases refusal <;> simp [Refusal.fault, Fault.Late, Fault.kind, FaultKind.early]

theorem late_rowsOf (reply : Reply) : Except.FailsWith Fault.Late reply.rowsOf := by
  cases reply with
  | refused refusal | unreachable refusal => exact error (late_refusal refusal)
  | _ => exact ok _

theorem late_affectedOf (reply : Reply) : Except.FailsWith Fault.Late reply.affectedOf := by
  cases reply with
  | refused refusal | unreachable refusal => exact error (late_refusal refusal)
  | _ => exact ok _

theorem late_internal (cause : InternalFault) : (Fault.internal cause).Late := by
  simp [Fault.Late, Fault.kind, FaultKind.early]

theorem late_countOf (reply : Reply) : Except.FailsWith Fault.Late reply.countOf := by
  refine reply.late_rowsOf.bind fun rows => ?_
  split
  · split
    · exact ok _
    · exact error (late_internal _)
  · exact error (late_internal _)
  · split
    · exact ok _
    · exact error (late_internal _)
  · exact error (late_internal _)

end Reply

theorem Vault.late_decryptRow (v : Vault) (connection table : String) (row : Row) :
    Except.FailsWith Fault.Late (v.decryptRow connection table row) :=
  (v.kind_decryptRow table connection row).imp fun fault hkind => by
    simp [Fault.Late, hkind, FaultKind.early]

/-! ## Statements -/

/-- The statement goes to the connection of the name, and reading the answer ends with no early fault. If the
database is not reached, it ends with the fault of that. -/
structure Prepared.For (s : Service) (connection : String) (p : Prepared α) : Prop where
  found : s.registry.find? connection = .ok p.connection
  late : ∀ reply, Except.FailsWith Fault.Late (p.read reply)
  unreached : ∀ refusal, p.read (.unreachable refusal) = .error refusal.fault

namespace Prepared.For

theorem map {p : Prepared α} (h : p.For s connection) (f : α → β) : (p.map f).For s connection :=
  ⟨h.found, fun reply => (h.late reply).map f, fun refusal => congrArg (Except.map f) (h.unreached refusal)⟩

theorem write {c : Connection} (hc : s.registry.find? connection = .ok c) (statement : Statement) :
    (Prepared.write c statement).For s connection :=
  ⟨hc, Reply.late_affectedOf, fun _ => rfl⟩

end Prepared.For

namespace Service

variable {conditions : List Condition} {map : Row}

theorem for_query {spec : QuerySpec} {p : Prepared (List Row)} (h : s.query connection table spec = .ok p) :
    p.For s connection := by
  simp only [query, Except.bind_eq_ok, Except.pure_eq_ok] at h
  obtain ⟨c, hc, searched, -, statement, -, rfl⟩ := h
  exact ⟨hc, fun reply => reply.late_rowsOf.bind fun rows =>
    Except.FailsWith.mapM (s.vault.late_decryptRow c.name _) rows, fun _ => rfl⟩

theorem for_fetch {p : Prepared (List Row)} (h : s.fetch connection table map = .ok p) :
    p.For s connection := by
  obtain ⟨conditions, -, h⟩ := Except.bind_eq_ok.mp h
  exact for_query h

theorem for_count {p : Prepared Int} (h : s.count connection table conditions = .ok p) :
    p.For s connection := by
  simp only [count, Except.bind_eq_ok, Except.pure_eq_ok] at h
  obtain ⟨c, hc, searched, -, statement, -, rfl⟩ := h
  exact ⟨hc, Reply.late_countOf, fun _ => rfl⟩

theorem for_fetchCount {p : Prepared Int} (h : s.fetchCount connection table map = .ok p) :
    p.For s connection := by
  obtain ⟨conditions, -, h⟩ := Except.bind_eq_ok.mp h
  exact for_count h

variable {p : Prepared AffectedInfo}

theorem for_insert {rows : List Row} (h : s.insert connection table rows nonces = .ok p) :
    p.For s connection := by
  simp only [insert, Except.bind_eq_ok, Except.pure_eq_ok] at h
  obtain ⟨c, hc, stored, -, statement, -, rfl⟩ := h
  exact .write hc statement

theorem for_update {values : Row} (h : s.update connection table values conditions nonces = .ok p) :
    p.For s connection := by
  simp only [update, Except.bind_eq_ok, Except.pure_eq_ok] at h
  obtain ⟨-, -, c, hc, stored, -, searched, -, statement, -, rfl⟩ := h
  exact .write hc statement

theorem for_edit {values : Row} (h : s.edit connection table values map nonces = .ok p) :
    p.For s connection := by
  obtain ⟨conditions, -, h⟩ := Except.bind_eq_ok.mp h
  exact for_update h

theorem for_upsert {rows : List Row} {uniqueBy : List String} {update : Option (List String)}
    (h : s.upsert connection table rows uniqueBy update nonces = .ok p) : p.For s connection := by
  simp only [upsert, Except.bind_eq_ok] at h
  obtain ⟨c, hc, h⟩ := h
  split at h
  · cases h
  · simp only [Except.bind_eq_ok, Except.pure_eq_ok] at h
    obtain ⟨stored, -, statement, -, rfl⟩ := h
    exact .write hc statement

theorem for_remove {c : Connection} (hc : s.registry.find? connection = .ok c)
    (h : s.remove c table conditions = .ok p) : p.For s connection := by
  simp only [remove, Except.bind_eq_ok, Except.pure_eq_ok] at h
  obtain ⟨searched, -, statement, -, rfl⟩ := h
  exact .write hc statement

theorem for_markDeleted {c : Connection} (hc : s.registry.find? connection = .ok c) {column : String}
    (h : s.markDeleted c table column conditions = .ok p) : p.For s connection := by
  simp only [markDeleted, Except.bind_eq_ok, Except.pure_eq_ok] at h
  obtain ⟨searched, -, statement, -, rfl⟩ := h
  exact .write hc statement

theorem for_delete (h : s.delete connection table conditions = .ok p) : p.For s connection := by
  simp only [delete, Except.bind_eq_ok] at h
  obtain ⟨-, -, c, hc, h⟩ := h
  split at h
  · exact for_markDeleted hc h
  · exact for_remove hc h

theorem for_softDelete (h : s.softDelete connection table conditions = .ok p) : p.For s connection := by
  simp only [softDelete, Except.bind_eq_ok] at h
  obtain ⟨-, -, c, hc, column, -, h⟩ := h
  exact for_markDeleted hc h

theorem for_permanentDelete (h : s.permanentDelete connection table conditions = .ok p) :
    p.For s connection := by
  simp only [permanentDelete, Except.bind_eq_ok] at h
  obtain ⟨-, -, c, hc, h⟩ := h
  exact for_remove hc h

theorem for_restore (h : s.restore connection table conditions = .ok p) : p.For s connection := by
  simp only [restore, Except.bind_eq_ok, Except.pure_eq_ok] at h
  obtain ⟨-, -, c, hc, column, -, searched, -, statement, -, rfl⟩ := h
  exact .write hc statement

theorem for_selectRaw {statement : Statement} {p : Prepared (List Row)}
    (h : s.selectRaw connection statement = .ok p) : p.For s connection := by
  simp only [selectRaw, Except.bind_eq_ok, Except.pure_eq_ok] at h
  obtain ⟨c, hc, rfl⟩ := h
  exact ⟨hc, Reply.late_rowsOf, fun _ => rfl⟩

theorem for_executeRaw {statement : Statement} (h : s.executeRaw connection statement = .ok p) :
    p.For s connection := by
  simp only [executeRaw, Except.bind_eq_ok, Except.pure_eq_ok] at h
  obtain ⟨c, hc, rfl⟩ := h
  exact .write hc statement

theorem for_health {p : Prepared Bool} (h : s.health connection = .ok p) : p.For s connection := by
  simp only [health, Except.bind_eq_ok, Except.pure_eq_ok] at h
  obtain ⟨c, hc, rfl⟩ := h
  exact ⟨hc, fun reply => reply.late_rowsOf.bind fun _ => Except.FailsWith.ok _, fun _ => rfl⟩

end Service

/-! ## Plans -/

/-- The plan is for the connection of the name: to send one statement there, or, for a schema change, any
number of them. -/
inductive Plan.For (s : Service) (connection : String) : Bool → Plan → Prop
  | statement {p : Prepared OperationData} (h : p.For s connection) : For s connection false (.statement p)
  | steps {c : Connection} (hc : s.registry.find? connection = .ok c) (table : String)
      (steps : List SchemaStep) : For s connection true (.steps c table steps)

theorem Plan.for_ofPrepared {f : α → OperationData} {prepared : Except Fault (Prepared α)} {plan : Plan}
    (hplan : Plan.ofPrepared f prepared = .ok plan) (h : ∀ p, prepared = .ok p → p.For s connection) :
    plan.For s connection false := by
  obtain ⟨p, hp, rfl⟩ := Except.map_eq_ok.mp hplan
  exact .statement ((h p hp).map f)

/-- The action of an operation is of its kind. -/
theorem Operation.changesSchema_of_action {o : Operation} {action : Action} (h : o.action = .ok action) :
    action.changesSchema = decide (o.kind = .schema) := by
  unfold Operation.action at h
  dsimp only at h
  split at h
  · rename_i haction
    cases h
    cases hkind : o.kind <;> simp only [hkind, Action.ofParams?, Option.map_eq_some_iff] at haction <;>
      obtain ⟨_, -, rfl⟩ := haction <;> simp [Action.changesSchema]
  · cases h

theorem Service.for_planAction {action : Action} {plan : Plan}
    (h : s.planAction connection table nonces action = .ok plan) :
    plan.For s connection action.changesSchema := by
  cases action with
  | select query => exact Plan.for_ofPrepared h fun _ => for_query
  | fetch conditions => exact Plan.for_ofPrepared h fun _ => for_fetch
  | count conditions => exact Plan.for_ofPrepared h fun _ => for_fetchCount
  | insert rows => exact Plan.for_ofPrepared h fun _ => for_insert
  | update params => exact Plan.for_ofPrepared h fun _ => for_update
  | upsert params => exact Plan.for_ofPrepared h fun _ => for_upsert
  | delete conditions => exact Plan.for_ofPrepared h fun _ => for_delete
  | softDelete conditions => exact Plan.for_ofPrepared h fun _ => for_softDelete
  | permanentDelete conditions => exact Plan.for_ofPrepared h fun _ => for_permanentDelete
  | restore conditions => exact Plan.for_ofPrepared h fun _ => for_restore
  | schema change =>
      obtain ⟨⟨c, steps⟩, hplan, rfl⟩ := Except.map_eq_ok.mp h
      obtain ⟨_, hc, hplan⟩ := Except.bind_eq_ok.mp hplan
      simp only [Except.bind_eq_ok, Except.pure_eq_ok, Prod.mk.injEq] at hplan
      obtain ⟨_, -, rfl, -⟩ := hplan
      exact .steps hc table steps

/-- Every plan is for the connection that the request names. -/
theorem Service.for_plan {r : Request} {plan : Plan} (h : s.plan nonces r = .ok plan) :
    plan.For s r.connection r.changesSchema := by
  cases r with
  | act connection table action => exact for_planAction h
  | count connection table conditions => exact Plan.for_ofPrepared h fun _ => for_count
  | edit connection table values conditions => exact Plan.for_ofPrepared h fun _ => for_edit
  | operation o =>
      obtain ⟨action, haction, h⟩ := Except.bind_eq_ok.mp h
      rw [Request.changesSchema, ← Operation.changesSchema_of_action haction]
      exact for_planAction h

/-! ## Sessions -/

namespace Session

/-- Steps of a schema change end with no early fault. -/
theorem late_runSteps (s : Session) (c : Connection) (table : String) (position : ℕ) (steps : List SchemaStep) :
    Except.FailsWith Fault.Late (s.runSteps c table position steps).1 := by
  have hrun := s.runsTo_runSteps c table position steps
  generalize s.runSteps c table position steps = result at hrun
  cases hrun with
  | refused _ _ _ _ | unreachable _ _ _ _ => exact .error (by simp [Fault.Late, Fault.kind, FaultKind.early])
  | done _ _ => exact .ok _

theorem late_runAll (s : Session) (c : Connection) (table : String) (steps : List SchemaStep) :
    Except.FailsWith Fault.Late (s.runAll c table steps).1 := by
  simp only [runAll]
  rcases s.cutOff_or_open c with ⟨refusal, hcutOff⟩ | hopen
  · rw [connect_cutOff hcutOff]
    exact .error (Reply.late_refusal refusal)
  · rw [connect_open hopen]
    exact late_runSteps _ c table 0 steps

/-- Once there is a plan, a request ends with no early fault. -/
theorem late_follow (s : Session) {connection : String} {changesSchema : Bool} {plan : Plan}
    (h : plan.For s.service connection changesSchema) : Except.FailsWith Fault.Late (s.follow (.ok plan)).1 := by
  cases h with
  | statement hp => exact hp.late _
  | steps _ table steps => exact (s.late_runAll _ table steps).map _

/-- A statement whose answer can be read has been sent. -/
theorem sent_perform (s : Session) {connection : String} {p : Prepared α} {a : α}
    (h : p.For s.service connection) (ha : (s.perform (.ok p)).1 = .ok a) :
    (s.perform (.ok p)).2.sent = s.sent ++ [(p.connection.name, p.statement)] := by
  rcases s.perform_cases p with ⟨refusal, -, hunreached⟩ | hsent
  · rw [hunreached, h.unreached] at ha
    cases ha
  · exact hsent

/-- An early fault leaves the session as it was: nothing has been sent, and nothing that is remembered about any
table has changed. A request that succeeds, unless it is for a schema change, has sent one statement, to the
connection that it names. -/
theorem respond_early (s : Session) (nonces : Nonces) (r : Request) :
    (∀ fault, (s.respond nonces r).1 = .error fault → fault.kind ∈ FaultKind.early →
      (s.respond nonces r).2 = s) ∧
    (∀ data, (s.respond nonces r).1 = .ok data → r.changesSchema = false →
      ∃ c statement, s.service.registry.find? r.connection = .ok c ∧
        (s.respond nonces r).2.sent = s.sent ++ [(c.name, statement)]) := by
  rw [respond_eq]
  cases hplan : s.service.plan nonces r with
  | error fault => exact ⟨fun _ _ _ => rfl, fun _ h => nomatch h⟩
  | ok plan =>
      have hfor := Service.for_plan hplan
      refine ⟨fun fault hfault hearly => absurd hearly (s.late_follow hfor fault hfault), ?_⟩
      intro data hdata hr
      rw [hr] at hfor
      cases hfor with
      | @statement p hp => exact ⟨p.connection, p.statement, hp.found, s.sent_perform hp hdata⟩

/-- A column is encrypted with a key that is not there: its rows are counted, but not inserted. -/
theorem respond_early_keyless :
    let c : Connection := ⟨"main", .sqlite, "sqlite::memory:", .shared, 1⟩
    let vault := Vault.new .standard ⟨[⟨1, List.replicate 32 7⟩], ⟨1, List.replicate 32 7⟩⟩ []
      .chacha20Poly1305
    let s : Session := {
      service := ⟨⟨.ofList [("main", c)], none, .empty⟩,
        vault.register "main" "users" ⟨"email", .chacha20Poly1305, some 2, none⟩, .empty, .guarded⟩
      replies := [.rows [.ofList [("aggregate", .int 3)]]] }
    let nonces : Nonces := fun _ _ => ⟨List.replicate 24 0, rfl⟩
    let insertion := Request.act "main" "users" (.insert [.ofList [("email", .text "ada@example.org")]])
    let counting := Request.count "main" "users" [.isNull "email"]
    (s.respond nonces insertion).2 = s ∧
      ∃ c statement, s.service.registry.find? "main" = .ok c ∧
        (s.respond nonces counting).2.sent = s.sent ++ [(c.name, statement)] := by
  intro c vault s nonces insertion counting
  have hinsertion : (match (s.respond nonces insertion).1 with
      | .error fault => decide (fault.kind ∈ FaultKind.early)
      | .ok _ => false) = true := by
    decide +kernel
  have hcounting : (s.respond nonces counting).1.toOption.isSome = true := by
    decide +kernel
  constructor
  · split at hinsertion
    · rename_i fault hfault
      exact (respond_early s nonces insertion).1 fault hfault (of_decide_eq_true hinsertion)
    · cases hinsertion
  · obtain ⟨data, hdata⟩ := Option.isSome_iff_exists.mp hcounting
    exact (respond_early s nonces counting).2 data (Except.toOption_eq_some.mp hdata) rfl

end Session

end TableGate
