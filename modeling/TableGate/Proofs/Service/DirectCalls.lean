import TableGate.Proofs.Batch.RunSlots
import TableGate.Proofs.Batch.WrittenOperations
import TableGate.Service.Session

/-! # Operations in place of direct calls

An operation has the arguments of a direct call in JSON. It gives the same result, sends the same statements and
leaves the same session as that call, as long as the values in the arguments are literal. In a batch, the slot of the
operation keeps that result. -/

namespace TableGate

open Carrier

namespace Action

/-- The kind of the operations that ask for an action. -/
def kind : Action → OperationKind
  | .select _ => .select
  | .fetch _ => .fetch
  | .count _ => .count
  | .insert _ => .insert
  | .update _ => .update
  | .upsert _ => .upsert
  | .delete _ => .delete
  | .softDelete _ => .softDelete
  | .permanentDelete _ => .permanentDelete
  | .restore _ => .restore
  | .schema _ => .schema

/-- The arguments of an action in JSON, as an operation has them. -/
def params : Action → Value
  | .select query => query.toJson
  | .fetch conditions => .ofRow conditions
  | .count conditions => .ofRow conditions
  | .insert rows => Row.listToJson rows
  | .update params => params.toJson
  | .upsert params => params.toJson
  | .delete conditions => WhereParams.toJson ⟨conditions⟩
  | .softDelete conditions => WhereParams.toJson ⟨conditions⟩
  | .permanentDelete conditions => WhereParams.toJson ⟨conditions⟩
  | .restore conditions => WhereParams.toJson ⟨conditions⟩
  | .schema change => change.toJson

/-- The operation that asks for an action on a table. -/
def operation (connection table : String) (action : Action) : Operation :=
  ⟨connection, table, action.kind, action.params⟩

/-- The columns that an action defines. -/
def columns : Action → List ColumnDefinition
  | .schema change => change.columns
  | _ => []

end Action

instance : Carrier Action where
  values
    | .select query => values query
    | .fetch conditions => values conditions
    | .count conditions => values conditions
    | .insert rows => values rows
    | .update params => values params
    | .upsert params => values params
    | .delete conditions => values conditions
    | .softDelete conditions => values conditions
    | .permanentDelete conditions => values conditions
    | .restore conditions => values conditions
    | .schema change => values change
  replace? f
    | .select query => (replace? f query).map .select
    | .fetch conditions => (replace? f conditions).map .fetch
    | .count conditions => (replace? f conditions).map .count
    | .insert rows => (replace? f rows).map .insert
    | .update params => (replace? f params).map .update
    | .upsert params => (replace? f params).map .upsert
    | .delete conditions => (replace? f conditions).map .delete
    | .softDelete conditions => (replace? f conditions).map .softDelete
    | .permanentDelete conditions => (replace? f conditions).map .permanentDelete
    | .restore conditions => (replace? f conditions).map .restore
    | .schema change => (replace? f change).map .schema
  replace?_eq_self_iff f action := by
    cases action with
    | _ x => simpa using replace?_eq_self_iff f x

/-- Reading the parameters of a deletion or a restoration. -/
theorem WhereParams.conditions_ofJson? {α : Type} (f : List Condition → α) (conditions : List Condition) :
    (ofJson? (toJson ⟨conditions⟩)).map (fun p => f p.conditions) = (replace? Value.settled? conditions).map f := by
  rw [ofJson?_toJson]
  change ((replace? Value.settled? conditions).map _).map _ = _
  cases replace? Value.settled? conditions <;> rfl

/-- The parameters of an operation are read as the arguments that were written. -/
theorem Action.ofParams?_params {action : Action} (h : ∀ c ∈ action.columns, c.default ≠ some .null) :
    ofParams? action.kind action.params = replace? Value.settled? action := by
  cases action with
  | select query => exact congrArg (Option.map select) query.ofJson?_toJson
  | fetch conditions => exact congrArg (Option.map fetch) (Value.asRow?_ofRow conditions)
  | count conditions => exact congrArg (Option.map count) (Value.asRow?_ofRow conditions)
  | insert rows =>
      change (Row.listOfJson? (Row.listToJson rows) <|> none).map insert = (replace? Value.settled? rows).map insert
      rw [Row.listOfJson?_listToJson]
      cases replace? Value.settled? rows <;> rfl
  | update params => exact congrArg (Option.map update) params.ofJson?_toJson
  | upsert params => exact congrArg (Option.map upsert) params.ofJson?_toJson
  | delete conditions => exact WhereParams.conditions_ofJson? delete conditions
  | softDelete conditions => exact WhereParams.conditions_ofJson? softDelete conditions
  | permanentDelete conditions => exact WhereParams.conditions_ofJson? permanentDelete conditions
  | restore conditions => exact WhereParams.conditions_ofJson? restore conditions
  | schema change => exact congrArg (Option.map schema) (SchemaChange.ofJson?_toJson h)

theorem Action.params_ne_null (action : Action) : action.params ≠ .null := by
  cases action with
  | select query =>
      cases query
      exact fun h => nomatch h
  | schema change => cases change <;> exact fun h => nomatch h
  | _ => exact fun h => nomatch h

theorem Operation.action_eq_ok {o : Operation} {action : Action} (hnull : o.params ≠ .null)
    (h : Action.ofParams? o.kind o.params = some action) : o.action = .ok action := by
  obtain ⟨connection, table, kind, params⟩ := o
  cases params with
  | null => exact absurd rfl hnull
  | _ => simp only [Operation.action, h]

/-- Arguments with literal values are understood as they are. -/
theorem Action.action_operation {action : Action} (hordered : ∀ v ∈ values action, v.isOrdered = true)
    (hliteral : ∀ v ∈ values action, v.isLiteral = true) (hdefaults : ∀ c ∈ action.columns, c.default ≠ some .null)
    (connection table : String) : (action.operation connection table).action = .ok action := by
  refine Operation.action_eq_ok action.params_ne_null ?_
  change ofParams? action.kind action.params = some action
  rw [ofParams?_params hdefaults, replace?_eq_self_iff]
  exact fun v hv => (Value.settled?_eq_self_iff (hordered v hv)).mpr (hliteral v hv)

namespace Session

/-- The answer to a direct call, as the data of an operation. -/
def asData {α : Type} (f : α → OperationData) (answer : Except Fault α × Session) :
    Except Fault OperationData × Session :=
  (answer.1.map f, answer.2)

/-- The direct call for the arguments of an action. -/
def direct (s : Session) (connection table : String) (nonces : Nonces) : Action → Except Fault OperationData × Session
  | .select query => asData .rows (s.perform (s.service.query connection table query))
  | .fetch conditions => asData .rows (s.perform (s.service.fetch connection table conditions))
  | .count conditions => asData .count (s.perform (s.service.fetchCount connection table conditions))
  | .insert rows => asData .affected (s.perform (s.service.insert connection table rows nonces))
  | .update params =>
    asData .affected (s.perform (s.service.update connection table params.values params.conditions nonces))
  | .upsert params =>
    asData .affected
      (s.perform (s.service.upsert connection table params.rows params.uniqueBy params.update nonces))
  | .delete conditions => asData .affected (s.perform (s.service.delete connection table conditions))
  | .softDelete conditions => asData .affected (s.perform (s.service.softDelete connection table conditions))
  | .permanentDelete conditions =>
    asData .affected (s.perform (s.service.permanentDelete connection table conditions))
  | .restore conditions => asData .affected (s.perform (s.service.restore connection table conditions))
  | .schema change => asData .schema (s.applySchema connection table change)

theorem perform_map {α : Type} (s : Session) (f : α → OperationData) (prepared : Except Fault (Prepared α)) :
    s.perform (prepared.map (·.map f)) = asData f (s.perform prepared) := by
  cases prepared <;> rfl

/-- An action is carried out by the direct call for it. -/
theorem carryOut_eq_direct (s : Session) (connection table : String) (action : Action) (nonces : Nonces) :
    s.carryOut connection table action nonces = s.direct connection table nonces action := by
  cases action with
  | schema change => rfl
  | _ => exact s.perform_map _ _

/-- An operation with the arguments of a direct call in JSON gives what the call gives and leaves what it leaves. In a
batch, its slot has the result of the call on the session in which it ended, from when it is recorded on. -/
theorem execute_written (action : Action) (hordered : ∀ v ∈ values action, v.isOrdered = true)
    (hliteral : ∀ v ∈ values action, v.isLiteral = true) (hdefaults : ∀ c ∈ action.columns, c.default ≠ some .null)
    (connection table : String) :
    (∀ (s : Session) (nonces : Nonces),
      s.execute (action.operation connection table) nonces = s.direct connection table nonces action) ∧
    ∀ (limits : Limits) (nonces : ℕ → Nonces) (store : BatchStore) (now : ℕ) (operations : List Operation)
      (world : Session) (before after : List Move) (i : ℕ),
      let r := (BatchRun.begin store now operations world).play limits (runner nonces) before
      r.tasks[i]? = some (action.operation connection table, .running) →
      (r.play limits (runner nonces) [.finish i]).world =
        (r.world.direct connection table (nonces i) action).2 ∧
      (r.play limits (runner nonces) (.finish i :: after)).slot? i =
        some (if .record i ∈ after then some (.ofResult (r.world.direct connection table (nonces i) action).1)
          else none) := by
  have hexecute : ∀ (s : Session) (nonces : Nonces),
      s.execute (action.operation connection table) nonces = s.direct connection table nonces action := by
    intro s nonces
    rw [execute, Action.action_operation hordered hliteral hdefaults]
    exact s.carryOut_eq_direct connection table action nonces
  refine ⟨hexecute, ?_⟩
  intro limits nonces store now operations world before after i r hrunning
  refine ⟨?_, ?_⟩
  · rw [← hexecute]
    simp only [BatchRun.play, List.foldl_cons, List.foldl_nil, BatchRun.move?, hrunning]
    rfl
  · rw [← hexecute]
    exact BatchRun.slot?_play_finish after rfl hrunning

/-- A session with one connection, and the answer to one write. -/
def central : Session where
  service := ⟨⟨.ofList [("central", ⟨"central", .sqlite, "sqlite::memory:", .shared, 1⟩)], none, .empty⟩,
    Vault.new .standard ⟨[⟨1, List.replicate 32 7⟩], ⟨1, List.replicate 32 7⟩⟩ [] .chacha20Poly1305, .empty, .guarded⟩
  replies := [.affected ⟨1, some 1⟩]

/-- The insertion of a row, as an operation by itself and in a batch of its own. -/
theorem execute_written_insert :
    let nonces : Nonces := fun _ _ => ⟨List.replicate 24 0, rfl⟩
    let action : Action := .insert [.ofList [("c", .object [("a", .int 1), ("b", .array [.null, .text "x"])])]]
    let operation := action.operation "central" "users"
    let run := (BatchRun.begin (.empty 60) 0 [operation] central).play ⟨1, 1⟩ (runner fun _ => nonces)
      [.claim 0, .start 0, .finish 0, .record 0]
    central.execute operation nonces = central.direct "central" "users" nonces action ∧
      run.slot? 0 = some (some (.success (.affected ⟨1, some 1⟩))) := by
  intro nonces action operation run
  obtain ⟨hdirect, hbatch⟩ :=
    execute_written action (by decide +kernel) (by decide +kernel) (fun _ h => nomatch h) "central" "users"
  obtain ⟨-, hslot⟩ :=
    hbatch ⟨1, 1⟩ (fun _ => nonces) (.empty 60) 0 [operation] central [.claim 0, .start 0] [.record 0] 0 rfl
  have hresult : (central.direct "central" "users" nonces action).1 = .ok (.affected ⟨1, some 1⟩) := rfl
  refine ⟨hdirect central nonces, ?_⟩
  rw [if_pos (List.mem_singleton.mpr rfl), ← BatchRun.play_append] at hslot
  exact hslot.trans (congrArg (fun answer => some (some (Outcome.ofResult answer))) hresult)

/-- A map of conditions with an object that stands for an embedded text. -/
def embeddedMap : Row :=
  .ofList [("c", .object [(Value.embeddedName, .text "[1]")])]

/-- The direct call is refused, since a column is not compared with an object. The operation for it is read as one with
a list, for which rows are looked up. -/
theorem execute_embeddedMap :
    let nonces : Nonces := fun _ _ => ⟨List.replicate 24 0, rfl⟩
    let operation := Action.operation "central" "users" (.fetch embeddedMap)
    let direct := central.direct "central" "users" nonces (.fetch embeddedMap)
    (∀ v ∈ embeddedMap.values, v.isOrdered = true) ∧
      direct = (.error (.querySpec (.scalarExpected "c")), central) ∧
      (central.execute operation nonces).1.isOk = true ∧
      (central.execute operation nonces).2.sent.map (fun sent => sent.2.sql) =
        ["SELECT * FROM \"users\" WHERE \"c\" IN (?)"] ∧
      central.execute operation nonces ≠ direct := by
  intro nonces operation direct
  have hdirect : direct = (.error (.querySpec (.scalarExpected "c")), central) := rfl
  have hoperation : (central.execute operation nonces).1.isOk = true := by decide +kernel
  refine ⟨by decide +kernel, hdirect, hoperation, by decide +kernel, fun hsame => ?_⟩
  rw [hsame, hdirect] at hoperation
  cases hoperation

end Session

end TableGate
