import TableGate.Batch.Outcome
import TableGate.Proofs.Query.WrittenQueries
import TableGate.Proofs.Schema.WrittenChanges

/-! # Operations and outcomes that were written

An operation carries its parameters, and an outcome the rows that it gives. Reading what was written of them settles
these values and gives back the rest. -/

namespace TableGate

open Carrier

/-! ## Parameters -/

theorem Row.listOfJson?_listToJson (rows : List Row) :
    listOfJson? (listToJson rows) = replace? Value.settled? rows :=
  Value.asList?_written fun row _ => Value.asRow?_ofRow row

instance : Carrier UpdateParams where
  values p := values p.values ++ values p.conditions
  replace? f p := do
    return { values := ← replace? f p.values, conditions := ← replace? f p.conditions }
  replace?_eq_self_iff f p := by
    rw [List.forall_mem_append, ← replace?_eq_self_iff, ← replace?_eq_self_iff]
    cases p
    simp [Option.bind_eq_some_iff]

theorem UpdateParams.ofJson?_toJson (p : UpdateParams) : ofJson? p.toJson = replace? Value.settled? p := by
  simp only [ofJson?, toJson, Fields.of?, Option.bind_eq_bind, Option.bind_some]
  rw [Fields.required_of_find? (by rfl), Fields.orDefault_of_find? (by rfl), Value.asRow?_ofRow,
    Condition.listOfJson?_listToJson]
  rfl

instance : Carrier UpsertParams where
  values p := values p.rows
  replace? f p := (replace? f p.rows).map fun rows => { p with rows }
  replace?_eq_self_iff f p := by
    rw [← replace?_eq_self_iff]
    cases p
    simp

theorem UpsertParams.ofJson?_toJson (p : UpsertParams) : ofJson? p.toJson = replace? Value.settled? p := by
  obtain ⟨rows, uniqueBy, update⟩ := p
  simp only [ofJson?, toJson, Fields.of?, Option.bind_eq_bind, Option.bind_some]
  rw [Fields.required_of_find? (by rfl), Fields.required_of_find? (by rfl),
    Fields.optional_same update (fun _ => rfl) Value.asTexts?_ofTexts (by cases update <;> rfl),
    Row.listOfJson?_listToJson, Value.asTexts?_ofTexts]
  change _ = (replace? Value.settled? rows).map _
  cases replace? Value.settled? rows <;> rfl

instance : Carrier WhereParams where
  values p := values p.conditions
  replace? f p := (replace? f p.conditions).map fun conditions => { conditions }
  replace?_eq_self_iff f p := by
    rw [← replace?_eq_self_iff]
    cases p
    simp

theorem WhereParams.ofJson?_toJson (p : WhereParams) : ofJson? p.toJson = replace? Value.settled? p := by
  simp only [ofJson?, toJson, Fields.of?, Option.bind_eq_bind, Option.bind_some]
  rw [Fields.orDefault_of_find? (by rfl), Condition.listOfJson?_listToJson]
  change _ = (replace? Value.settled? p.conditions).map _
  cases replace? Value.settled? p.conditions <;> rfl

/-! ## Operations -/

instance : Carrier Operation where
  values o := [o.params]
  replace? f o := (f o.params).map fun params => { o with params }
  replace?_eq_self_iff f o := by
    cases o
    simp

theorem OperationKind.ofJson?_name (kind : OperationKind) : ofJson? (.text kind.name) = some kind :=
  ofName?_name kind

theorem Operation.ofJson?_toJson (o : Operation) : ofJson? o.toJson = replace? Value.settled? o := by
  simp only [ofJson?, toJson, Fields.of?, Option.bind_eq_bind, Option.bind_some]
  rw [Fields.required_of_find? (by rfl), Fields.required_of_find? (by rfl), Fields.required_of_find? (by rfl),
    Fields.orDefault_of_find? (by rfl), OperationKind.ofJson?_name]
  change _ = o.params.settled?.map _
  rw [Value.asAny?]
  cases o.params.settled? <;> rfl

/-! ## Outcomes -/

theorem AffectedInfo.ofJson?_toJson (info : AffectedInfo) : ofJson? info.toJson = some info := by
  obtain ⟨affectedRows, lastInsertId⟩ := info
  simp only [ofJson?, toJson, Fields.of?, Option.bind_eq_bind, Option.bind_some, Fields.nullable]
  rw [Fields.required_of_find? (by rfl), Value.asUInt64?_toNat,
    Fields.optional_same lastInsertId (fun _ => rfl) Value.asInt64?_toInt (by cases lastInsertId <;> rfl)]
  rfl

theorem OperationFailure.ofJson?_toJson (failure : OperationFailure) : ofJson? failure.toJson = some failure := by
  obtain ⟨kind, message⟩ := failure
  cases kind <;> rfl

/-- A number of rows fits into 64 bits. -/
def OperationData.Fits : OperationData → Prop
  | .count n => Int64.minValue.toInt ≤ n ∧ n ≤ Int64.maxValue.toInt
  | _ => True

def Outcome.Fits : Outcome → Prop
  | .success data => data.Fits
  | .error _ => True

instance : Carrier OperationData where
  values
    | .rows items => values items
    | _ => []
  replace? f
    | .rows items => (replace? f items).map .rows
    | data => some data
  replace?_eq_self_iff f data := by
    cases data with
    | rows items => simpa using replace?_eq_self_iff f items
    | _ => simp

instance : Carrier Outcome where
  values
    | .success data => values data
    | .error _ => []
  replace? f
    | .success data => (replace? f data).map .success
    | .error failure => some (.error failure)
  replace?_eq_self_iff f outcome := by
    cases outcome with
    | success data => simpa using replace?_eq_self_iff f data
    | error failure => simp

theorem OperationData.kinded?_toJson (data : OperationData) :
    kinded? data.toJson = some (data.kind, data.valueToJson) := by
  cases data <;> rfl

theorem OperationData.ofJson?_toJson {data : OperationData} (h : data.Fits) :
    ofJson? data.toJson = replace? Value.settled? data := by
  rw [ofJson?, kinded?_toJson, Option.bind_eq_bind, Option.bind_some]
  cases data with
  | rows items =>
      change (Row.listOfJson? (Row.listToJson items)).map _ = (replace? Value.settled? items).map _
      rw [Row.listOfJson?_listToJson]
  | count n =>
      change ((Value.int n).asInt? _ _).map _ = some _
      rw [Value.asInt?_of_le h.1 h.2, Option.map_some]
  | affected info =>
      change (AffectedInfo.ofJson? info.toJson).map _ = some _
      rw [AffectedInfo.ofJson?_toJson, Option.map_some]
  | schema statements =>
      change (Value.ofTexts statements).asTexts?.map _ = some _
      rw [Value.asTexts?_ofTexts, Option.map_some]

theorem Outcome.ofJson?_toJson {outcome : Outcome} (h : outcome.Fits) :
    ofJson? outcome.toJson = replace? Value.settled? outcome := by
  cases outcome with
  | success data =>
      change (do return success (← OperationData.ofJson? data.toJson)) = (replace? Value.settled? data).map success
      rw [OperationData.ofJson?_toJson h]
      cases replace? Value.settled? data <;> rfl
  | error failure =>
      change (do return error (← OperationFailure.ofJson? failure.toJson)) = some (error failure)
      rw [OperationFailure.ofJson?_toJson]
      rfl

/-! ## What is read back -/

/-- Reading what was written of queries, operations, outcomes and their parts. -/
theorem written_readsBack :
    (∀ q : QuerySpec, ReadsBack QuerySpec.toJson QuerySpec.ofJson? q) ∧
    (∀ c : Condition, ReadsBack Condition.toJson Condition.ofJson? c) ∧
    (∀ j : JoinSpec, ReadsBack JoinSpec.toJson JoinSpec.ofJson? j) ∧
    (∀ item : SelectItem, SelectItem.ofJson? item.toJson = some item) ∧
    (∀ order : OrderBy, OrderBy.ofJson? order.toJson = some order) ∧
    (∀ o : Operation, ReadsBack Operation.toJson Operation.ofJson? o) ∧
    (∀ p : UpdateParams, ReadsBack UpdateParams.toJson UpdateParams.ofJson? p) ∧
    (∀ p : UpsertParams, ReadsBack UpsertParams.toJson UpsertParams.ofJson? p) ∧
    (∀ p : WhereParams, ReadsBack WhereParams.toJson WhereParams.ofJson? p) ∧
    (∀ e : EncryptedColumn, EncryptedColumn.ofJson? e.toJson = some e) ∧
    (∀ outcome : Outcome, outcome.Fits → ReadsBack Outcome.toJson Outcome.ofJson? outcome) :=
  ⟨fun q => readsBack_of_settles q.ofJson?_toJson, fun c => readsBack_of_settles c.ofJson?_toJson,
    fun j => readsBack_of_settles j.ofJson?_toJson, SelectItem.ofJson?_toJson, OrderBy.ofJson?_toJson,
    fun o => readsBack_of_settles o.ofJson?_toJson, fun p => readsBack_of_settles p.ofJson?_toJson,
    fun p => readsBack_of_settles p.ofJson?_toJson, fun p => readsBack_of_settles p.ofJson?_toJson,
    EncryptedColumn.ofJson?_toJson, fun _ h => readsBack_of_settles (Outcome.ofJson?_toJson h)⟩

/-- The greatest count of rows that fits, and the outcome of a query with nested values. -/
theorem written_readsBack_greatest_count :
    let greatest : Outcome := .success (.count 9223372036854775807)
    let found : Outcome := .success (.rows [.ofList [("c", .object [("a", .int 1), ("b", .array [.null])])]])
    greatest.Fits ∧ Outcome.ofJson? greatest.toJson = some greatest ∧
      found.Fits ∧ Outcome.ofJson? found.toJson = some found := by
  intro greatest found
  obtain ⟨-, -, -, -, -, -, -, -, -, -, houtcomes⟩ := written_readsBack
  have hgreatest : greatest.Fits := ⟨by decide, by decide⟩
  exact ⟨hgreatest, ((houtcomes greatest hgreatest).same (by decide +kernel)).mpr (by decide +kernel),
    trivial, ((houtcomes found trivial).same (by decide +kernel)).mpr (by decide +kernel)⟩

/-- An operation of which the parameters stand for the text of a list. -/
def embeddedOperation : Operation :=
  ⟨"c", "t", .select, .object [(Value.embeddedName, .text "[1]")]⟩

/-- It is read back with the list as its parameters. -/
theorem embeddedOperation_not_readBack :
    embeddedOperation.params.isOrdered = true ∧
    Operation.ofJson? embeddedOperation.toJson = some { embeddedOperation with params := .array [.int 1] } ∧
    Operation.ofJson? embeddedOperation.toJson ≠ some embeddedOperation := by
  have hread : Operation.ofJson? embeddedOperation.toJson =
      some { embeddedOperation with params := .array [.int 1] } := by
    rw [Operation.ofJson?_toJson]
    rfl
  refine ⟨rfl, hread, ?_⟩
  rw [hread, ne_eq, Option.some.injEq]
  exact fun h => nomatch congrArg Operation.params h

end TableGate
