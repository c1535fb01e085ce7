import TableGate.Proofs.Json.Value
import TableGate.Proofs.Service.DirectCalls

/-! # Schema changes as operations

A schema change is read from its JSON as what it was written from, unless one of its columns has a default that is
null, or a default in which an object stands for an embedded text. A null is written for the absence of a default, too.
A change that is read back is planned in the same steps as in the direct call. -/

namespace TableGate

open Carrier

/-! ## Things with columns -/

/-- The thing has no column with a default that is null. -/
def NoNullDefault {α : Type} (columns : α → List ColumnDefinition) (x : α) : Prop :=
  ∀ c ∈ columns x, c.default ≠ some .null

/-- The columns of a thing can be freed of the defaults that are null, which are not told from none once they are
written. -/
structure DropsNull {α : Type} [Carrier α] (write : α → Value) (columns : α → List ColumnDefinition)
    (withoutNull : α → α) : Prop where
  write_eq : ∀ x, write (withoutNull x) = write x
  free : ∀ x, NoNullDefault columns (withoutNull x)
  replace?_eq_iff : ∀ f x, replace? f (withoutNull x) = some x ↔ NoNullDefault columns x ∧ replace? f x = some x

section

variable {α : Type} [Carrier α] {write : α → Value} {read : Value → Option α} {columns : α → List ColumnDefinition}
  {withoutNull : α → α}

/-- What is read of a thing, null defaults or not, is the thing itself if and only if it has none of them and its values
are literal. -/
theorem DropsNull.read_write_iff (h : DropsNull write columns withoutNull)
    (hread : ∀ x, NoNullDefault columns x → read (write x) = replace? Value.settled? x) {x : α}
    (hordered : ∀ v ∈ values x, v.isOrdered = true) :
    read (write x) = some x ↔ NoNullDefault columns x ∧ ∀ v ∈ values x, v.isLiteral = true := by
  rw [← h.write_eq, hread _ (h.free x), h.replace?_eq_iff, replace?_eq_self_iff]
  exact and_congr_right fun _ => forall₂_congr fun v hv => Value.settled?_eq_self_iff (hordered v hv)

theorem mapM_map_eq_some_self {β : Type} {f : β → Option β} {g : β → β} {xs : List β} :
    (xs.map g).mapM f = some xs ↔ ∀ x ∈ xs, f (g x) = some x := by
  induction xs with
  | nil => simp
  | cons x xs ih =>
      simp only [List.map_cons, List.mapM_cons, Option.bind_eq_bind, Option.bind_eq_some_iff, Option.pure_def,
        Option.some.injEq, List.cons.injEq, List.forall_mem_cons]
      rw [← ih]
      constructor
      · rintro ⟨_, hx, _, hxs, rfl, rfl⟩
        exact ⟨hx, hxs⟩
      · rintro ⟨hx, hxs⟩
        exact ⟨x, hx, xs, hxs, rfl, rfl⟩

/-- A thing with another one in it is freed in that one. -/
theorem DropsNull.replace?_within_iff {β : Type} [Carrier β] (h : DropsNull write columns withoutNull) {wrap : α → β}
    (hwrap : Function.Injective wrap) {f : Value → Option Value}
    (hreplace : ∀ y, replace? f (wrap y) = (replace? f y).map wrap) (x : α) :
    replace? f (wrap (withoutNull x)) = some (wrap x) ↔
      NoNullDefault columns x ∧ replace? f (wrap x) = some (wrap x) := by
  have hinner (y : α) : replace? f (wrap y) = some (wrap x) ↔ replace? f y = some x := by
    rw [hreplace, ← Option.map_some, (Option.map_injective hwrap).eq_iff]
  rw [hinner, hinner, h.replace?_eq_iff]

/-- Of a list, each item is freed. -/
theorem DropsNull.list (h : DropsNull write columns withoutNull) :
    DropsNull (fun xs => .array (xs.map write)) (List.flatMap columns) (List.map withoutNull) where
  write_eq xs := by
    rw [List.map_map]
    exact congrArg Value.array (List.map_congr_left fun x _ => h.write_eq x)
  free xs c hc := by
    obtain ⟨y, hy, hc⟩ := List.mem_flatMap.mp hc
    obtain ⟨x, -, rfl⟩ := List.mem_map.mp hy
    exact h.free x c hc
  replace?_eq_iff f xs := by
    have hfree : NoNullDefault (List.flatMap columns) xs ↔ ∀ x ∈ xs, NoNullDefault columns x := by
      simp only [NoNullDefault, List.mem_flatMap]
      exact ⟨fun h x hx c hc => h c ⟨x, hx, hc⟩, fun h c ⟨x, hx, hc⟩ => h x hx c hc⟩
    have hself : replace? f xs = some xs ↔ ∀ x ∈ xs, replace? f x = some x := by
      have hid : (xs.map id).mapM (replace? f) = some xs ↔ ∀ x ∈ xs, replace? f (id x) = some x :=
        mapM_map_eq_some_self
      rwa [List.map_id] at hid
    rw [hfree, hself, ← forall₂_and]
    exact mapM_map_eq_some_self.trans (forall₂_congr fun x _ => h.replace?_eq_iff f x)

end

/-! ## Columns, tables and changes -/

/-- The column without a default that is null. -/
def ColumnDefinition.withoutNull (c : ColumnDefinition) : ColumnDefinition :=
  { c with default := c.default.filter (!·.isNull) }

theorem ColumnDefinition.withoutNull_of_ne {c : ColumnDefinition} (h : c.default ≠ some .null) : c.withoutNull = c := by
  obtain ⟨_, _, _, _, _, _, _, _, default, _, _⟩ := c
  cases default with
  | none => rfl
  | some v => cases v <;> first | rfl | exact absurd rfl h

theorem ColumnDefinition.default_withoutNull {c : ColumnDefinition} (h : c.default = some .null) :
    c.withoutNull.default = none := by
  rw [withoutNull, h]
  rfl

theorem ColumnDefinition.entries_withoutNull (c : ColumnDefinition) : c.withoutNull.entries = c.entries := by
  by_cases h : c.default = some .null
  · simp only [entries, default_withoutNull h, h]
    rfl
  · rw [withoutNull_of_ne h]

theorem ColumnDefinition.dropsNull : DropsNull toJson (fun c => [c]) withoutNull where
  write_eq c := congrArg Value.object c.entries_withoutNull
  free c d hd := by
    obtain rfl := List.mem_singleton.mp hd
    by_cases h : c.default = some .null
    · simp [default_withoutNull h]
    · rwa [withoutNull_of_ne h]
  replace?_eq_iff f c := by
    by_cases h : c.default = some .null
    · have hnone : replace? f c.withoutNull = some c.withoutNull :=
        (replace?_eq_self_iff f _).mpr fun v hv => by
          change v ∈ values c.withoutNull.default at hv
          rw [default_withoutNull h] at hv
          cases hv
      have hne : c.withoutNull ≠ c := fun heq => by
        have hdefault := default_withoutNull h
        rw [heq, h] at hdefault
        cases hdefault
      simp [NoNullDefault, h, hnone, hne]
    · simp [NoNullDefault, h, withoutNull_of_ne h]

def TableBlueprint.withoutNull (b : TableBlueprint) : TableBlueprint :=
  { b with columns := b.columns.map ColumnDefinition.withoutNull }

theorem TableBlueprint.columnsToJson_withoutNull (b : TableBlueprint) : b.withoutNull.columnsToJson = b.columnsToJson :=
  ColumnDefinition.dropsNull.list.write_eq b.columns

theorem flatMap_singleton_columns : List.flatMap (fun c : ColumnDefinition => [c]) = id := by
  funext columns
  simp

theorem TableBlueprint.dropsNull : DropsNull toJson columns withoutNull where
  write_eq b := by
    rw [toJson, columnsToJson_withoutNull]
    rfl
  free b := by
    have hfree := ColumnDefinition.dropsNull.list.free b.columns
    rwa [flatMap_singleton_columns] at hfree
  replace?_eq_iff f b := by
    have hwrap : Function.Injective fun columns : List ColumnDefinition => { b with columns } :=
      fun _ _ h => (TableBlueprint.mk.inj h).1
    have hcolumns := ColumnDefinition.dropsNull.list.replace?_within_iff hwrap (f := f) (fun _ => rfl) b.columns
    rwa [flatMap_singleton_columns] at hcolumns

def AlterAction.withoutNull : AlterAction → AlterAction
  | .add column => .add column.withoutNull
  | .modify column => .modify column.withoutNull
  | action => action

theorem AlterAction.dropsNull : DropsNull toJson columns withoutNull where
  write_eq action := by
    cases action with
    | add column => simp only [withoutNull, toJson, column.entries_withoutNull]
    | modify column => simp only [withoutNull, toJson, column.entries_withoutNull]
    | _ => rfl
  free action := by
    cases action with
    | add column => exact ColumnDefinition.dropsNull.free column
    | modify column => exact ColumnDefinition.dropsNull.free column
    | _ => exact fun _ h => nomatch h
  replace?_eq_iff f action := by
    cases action with
    | add column =>
        exact ColumnDefinition.dropsNull.replace?_within_iff (fun _ _ => add.inj) (fun _ => rfl) column
    | modify column =>
        exact ColumnDefinition.dropsNull.replace?_within_iff (fun _ _ => modify.inj) (fun _ => rfl) column
    | _ => simp [NoNullDefault, columns, withoutNull, replace?]

def SchemaChange.withoutNull : SchemaChange → SchemaChange
  | .createTable blueprint => .createTable blueprint.withoutNull
  | .alterTable actions => .alterTable (actions.map AlterAction.withoutNull)
  | change => change

theorem SchemaChange.dropsNull : DropsNull toJson columns withoutNull where
  write_eq change := by
    cases change with
    | createTable blueprint => simp only [withoutNull, toJson, blueprint.columnsToJson_withoutNull]; rfl
    | alterTable actions =>
        have hactions := AlterAction.dropsNull.list.write_eq actions
        exact congrArg (fun v => Value.object [("actions", v), ("op", .text "alterTable")]) hactions
    | _ => rfl
  free change := by
    cases change with
    | createTable blueprint => exact TableBlueprint.dropsNull.free blueprint
    | alterTable actions => exact AlterAction.dropsNull.list.free actions
    | _ => exact fun _ h => nomatch h
  replace?_eq_iff f change := by
    cases change with
    | createTable blueprint =>
        exact TableBlueprint.dropsNull.replace?_within_iff (fun _ _ => createTable.inj) (fun _ => rfl) blueprint
    | alterTable actions =>
        exact AlterAction.dropsNull.list.replace?_within_iff (fun _ _ => alterTable.inj) (fun _ => rfl) actions
    | _ => simp [NoNullDefault, columns, withoutNull, replace?]

/-! ## Reading them, and carrying them out -/

/-- What was written of a thing is read with its values settled, unless a default in it is null. The thing itself comes
back if and only if there is no such default and its values are literal, where their entries are in order. -/
structure ComesBack {α : Type} [Carrier α] (write : α → Value) (read : Value → Option α)
    (columns : α → List ColumnDefinition) (x : α) : Prop where
  settles : NoNullDefault columns x → read (write x) = replace? Value.settled? x
  same : (∀ v ∈ values x, v.isOrdered = true) →
    (read (write x) = some x ↔ NoNullDefault columns x ∧ ∀ v ∈ values x, v.isLiteral = true)

theorem DropsNull.comesBack {α : Type} [Carrier α] {write : α → Value} {read : Value → Option α}
    {columns : α → List ColumnDefinition} {withoutNull : α → α} (h : DropsNull write columns withoutNull)
    (hread : ∀ x, NoNullDefault columns x → read (write x) = replace? Value.settled? x) (x : α) :
    ComesBack write read columns x :=
  ⟨hread x, h.read_write_iff hread⟩

theorem AlterAction.listOfJson?_written {actions : List AlterAction}
    (h : NoNullDefault (List.flatMap AlterAction.columns) actions) :
    listOfJson? (.array (actions.map toJson)) = replace? Value.settled? actions :=
  Value.asList?_written fun action haction => ofJsonAt?_toJson .alone fun c hc =>
    h c (List.mem_flatMap.mpr ⟨action, haction, hc⟩)

namespace Session

/-- Tables, lists of changes of them and changes of the schema come back from their JSON, and a change that comes back
is carried out as an operation like in the direct call: planned in the same steps, or refused with the same fault. -/
theorem written_schema :
    (∀ b : TableBlueprint, ComesBack TableBlueprint.toJson TableBlueprint.ofJson? TableBlueprint.columns b) ∧
    (∀ actions : List AlterAction, ComesBack (fun actions => .array (actions.map AlterAction.toJson))
      AlterAction.listOfJson? (List.flatMap AlterAction.columns) actions) ∧
    (∀ change : SchemaChange, ComesBack SchemaChange.toJson SchemaChange.ofJson? SchemaChange.columns change) ∧
    ∀ (change : SchemaChange) (connection table : String), SchemaChange.ofJson? change.toJson = some change →
      (Action.operation connection table (.schema change)).action = .ok (.schema change) ∧
      ∀ (s : Session) (nonces : Nonces), s.execute (Action.operation connection table (.schema change)) nonces =
        asData .schema (s.applySchema connection table change) := by
  refine ⟨TableBlueprint.dropsNull.comesBack fun b => TableBlueprint.ofJsonAt?_toJson .alone,
    AlterAction.dropsNull.list.comesBack fun actions => AlterAction.listOfJson?_written,
    SchemaChange.dropsNull.comesBack fun change => SchemaChange.ofJson?_toJson, fun change connection table hsame => ?_⟩
  have haction : (Action.operation connection table (.schema change)).action = .ok (.schema change) :=
    Operation.action_eq_ok (Action.params_ne_null (.schema change)) (congrArg (Option.map Action.schema) hsame)
  refine ⟨haction, fun s nonces => ?_⟩
  rw [execute, haction]
  exact s.carryOut_eq_direct connection table (.schema change) nonces

/-- A change with a default comes back, and the operation for it is the direct call. -/
theorem written_schema_default :
    let change : SchemaChange := .alterTable
      [.add { name := "tags", type := .json, default := some (.object [("a", .int 1), ("b", .array [.null])]) },
        .drop "b"]
    let nonces : Nonces := fun _ _ => ⟨List.replicate 24 0, rfl⟩
    SchemaChange.ofJson? change.toJson = some change ∧
      central.execute (Action.operation "central" "users" (.schema change)) nonces =
        asData .schema (central.applySchema "central" "users" change) := by
  intro change nonces
  obtain ⟨-, -, hchanges, hcalls⟩ := written_schema
  have hback : SchemaChange.ofJson? change.toJson = some change := by
    refine ((hchanges change).same (by decide +kernel)).mpr ⟨fun c hc => ?_, by decide +kernel⟩
    obtain rfl := List.mem_singleton.mp hc
    exact fun h => nomatch h
  exact ⟨hback, (hcalls change "central" "users" hback).2 central nonces⟩

/-- A table with an encrypted column of which the default is null. -/
def nullDefaultTable : SchemaChange :=
  .createTable { columns := [{ name := "a", type := .text, default := some .null, encrypted := true }] }

/-- A table with a default that stands for an embedded text. -/
def embeddedDefaultTable : SchemaChange :=
  .createTable { columns := [
    { name := "a", type := .integer, default := some (.object [(Value.embeddedName, .text "1")]) }] }

/-- Both tables are refused in the direct call. The operations for them are read as other changes, which are planned. -/
theorem schema_not_readBack :
    let plan := central.service.planSchema "central" "t"
    let action (change : SchemaChange) := (Action.operation "central" "t" (.schema change)).action
    (SchemaChange.ofJson? nullDefaultTable.toJson ≠ some nullDefaultTable ∧
      plan nullDefaultTable = .error (.querySpec (.encryptedDefault "a")) ∧
      ∃ read, action nullDefaultTable = .ok (.schema read) ∧ (plan read).isOk = true) ∧
    SchemaChange.ofJson? embeddedDefaultTable.toJson ≠ some embeddedDefaultTable ∧
      plan embeddedDefaultTable = .error (.querySpec .defaultNotScalar) ∧
      ∃ read, action embeddedDefaultTable = .ok (.schema read) ∧ (plan read).isOk = true := by
  intro plan action
  have hdiffer (change : SchemaChange)
      (h : (SchemaChange.ofJson? change.toJson).map (fun read => read.columns.map (·.default)) ≠
        some (change.columns.map (·.default))) : SchemaChange.ofJson? change.toJson ≠ some change :=
    fun hsame => h (congrArg (Option.map fun read => read.columns.map (·.default)) hsame)
  refine ⟨⟨hdiffer _ (by decide), rfl, ?_⟩, hdiffer _ (by decide), rfl, ?_⟩
  · exact ⟨nullDefaultTable.withoutNull, rfl, by decide +kernel⟩
  · exact ⟨.createTable { columns := [{ name := "a", type := .integer, default := some (.int 1) }] }, rfl,
      by decide +kernel⟩

end Session

end TableGate
