import TableGate.Proofs.Json.Fields
import TableGate.Schema.Blueprint

/-! # Schema changes that were written

The columns of a schema change carry their defaults. A default that is null cannot be told from none. Apart from
that, reading what was written of a change settles the defaults and gives back the rest. -/

namespace TableGate

open Carrier

/-! ## Parts without values -/

theorem CipherAlgorithm.ofJsonAt?_name (place : Place) (a : CipherAlgorithm) :
    ofJsonAt? place (.text a.name) = some a := by
  cases a <;> rfl

theorem EncryptedColumn.ofJson?_toJson (e : EncryptedColumn) : ofJson? e.toJson = some e := by
  obtain ⟨column, algorithm, keyVersion, hashColumn⟩ := e
  simp only [ofJson?, toJson, Fields.of?, Option.bind_eq_bind, Option.bind_some]
  rw [Fields.required_of_find? (by rfl), Fields.orDefault_of_find? (by rfl),
    Fields.optional_same keyVersion (fun _ => rfl) Value.asUInt32?_toNat (by cases keyVersion <;> rfl),
    Fields.optional_same hashColumn (fun _ => rfl) (fun _ => rfl) (by cases hashColumn <;> rfl),
    CipherAlgorithm.ofJson?, CipherAlgorithm.ofJsonAt?_name]
  rfl

theorem TableEncryption.ofJsonAt?_toJson (place : Place) (e : TableEncryption) : ofJsonAt? place e.toJson = some e := by
  obtain ⟨algorithm, keyVersion⟩ := e
  simp only [ofJsonAt?, toJson, Fields.of?, Option.bind_eq_bind, Option.bind_some]
  rw [Fields.optional_same algorithm (fun _ => rfl) (CipherAlgorithm.ofJsonAt?_name place) (by cases algorithm <;> rfl),
    Fields.optional_same keyVersion (fun _ => rfl) Value.asUInt32?_toNat (by cases keyVersion <;> rfl)]
  rfl

theorem ColumnType.ofJsonAt?_name (place : Place) (t : ColumnType) : ofJsonAt? place (.text t.name) = some t :=
  ofName?_name t

/-! ## Columns -/

instance : Carrier ColumnDefinition where
  values c := values c.default
  replace? f c := (replace? f c.default).map fun default => { c with default }
  replace?_eq_self_iff f c := by
    rw [← replace?_eq_self_iff]
    cases c
    simp

theorem ColumnDefinition.ofJsonAt?_toJson (place : Place) {c : ColumnDefinition} (h : c.default ≠ some .null) :
    ofJsonAt? place c.toJson = replace? Value.settled? c := by
  obtain ⟨name, type, length, precision, scale, nullable, unique, index, default, encrypted, searchable⟩ := c
  have hdefault : (Fields.named (entries ⟨name, type, length, precision, scale, nullable, unique, index, default,
      encrypted, searchable⟩)).optional 8 ["default"] Value.asAny? = replace? Value.settled? default := by
    cases default with
    | none => exact Fields.optional_of_null rfl
    | some v =>
        have hv : v.isNull = false := by
          cases v <;> first | rfl | exact absurd rfl h
        exact Fields.optional_of_find? rfl hv
  simp only [ofJsonAt?, toJson, Fields.of?, Option.bind_eq_bind, Option.bind_some]
  rw [hdefault, Fields.required_of_find? (by rfl), Fields.required_of_find? (by rfl),
    Fields.optional_same length (fun _ => rfl) Value.asUInt32?_toNat (by cases length <;> rfl),
    Fields.optional_same precision (fun _ => rfl) Value.asUInt8?_toNat (by cases precision <;> rfl),
    Fields.optional_same scale (fun _ => rfl) Value.asUInt8?_toNat (by cases scale <;> rfl),
    Fields.optional_same nullable (fun _ => rfl) (fun _ => rfl) (by cases nullable <;> rfl),
    Fields.optional_same searchable (fun _ => rfl) (fun _ => rfl) (by cases searchable <;> rfl),
    Fields.orDefault_of_find? (by rfl), Fields.orDefault_of_find? (by rfl), Fields.orDefault_of_find? (by rfl),
    ColumnType.ofJsonAt?_name]
  change _ = (replace? Value.settled? default).map _
  cases replace? Value.settled? default <;> rfl

/-! ## Tables and their changes -/

/-- The columns in a change of a table. -/
def AlterAction.columns : AlterAction → List ColumnDefinition
  | .add column => [column]
  | .modify column => [column]
  | _ => []

/-- The columns in a change of the schema. -/
def SchemaChange.columns : SchemaChange → List ColumnDefinition
  | .createTable blueprint => blueprint.columns
  | .alterTable actions => actions.flatMap AlterAction.columns
  | _ => []

instance : Carrier TableBlueprint where
  values b := values b.columns
  replace? f b := (replace? f b.columns).map fun columns => { b with columns }
  replace?_eq_self_iff f b := by
    rw [← replace?_eq_self_iff]
    cases b
    simp

instance : Carrier AlterAction where
  values
    | .add column => values column
    | .modify column => values column
    | _ => []
  replace? f
    | .add column => (replace? f column).map .add
    | .modify column => (replace? f column).map .modify
    | action => some action
  replace?_eq_self_iff f action := by
    cases action with
    | add column => simpa using replace?_eq_self_iff f column
    | modify column => simpa using replace?_eq_self_iff f column
    | _ => simp

instance : Carrier SchemaChange where
  values
    | .createTable blueprint => values blueprint
    | .alterTable actions => values actions
    | _ => []
  replace? f
    | .createTable blueprint => (replace? f blueprint).map .createTable
    | .alterTable actions => (replace? f actions).map .alterTable
    | change => some change
  replace?_eq_self_iff f change := by
    cases change with
    | createTable blueprint => simpa using replace?_eq_self_iff f blueprint
    | alterTable actions => simpa using replace?_eq_self_iff f actions
    | _ => simp

theorem TableBlueprint.ofJsonAt?_toJson (place : Place) {b : TableBlueprint}
    (h : ∀ c ∈ b.columns, c.default ≠ some .null) : ofJsonAt? place b.toJson = replace? Value.settled? b := by
  obtain ⟨columns, softDelete, timestamps, encryption⟩ := b
  have hcolumns : Value.asList? (ColumnDefinition.ofJsonAt? place)
      (columnsToJson ⟨columns, softDelete, timestamps, encryption⟩) = replace? Value.settled? columns :=
    Value.asList?_written fun c hc => ColumnDefinition.ofJsonAt?_toJson place (h c hc)
  simp only [ofJsonAt?, toJson, Fields.of?, Option.bind_eq_bind, Option.bind_some]
  rw [Fields.required_of_find? (by rfl), hcolumns, Fields.orDefault_of_find? (by rfl),
    Fields.orDefault_of_find? (by rfl), Fields.optional_same encryption (fun _ => rfl)
      (TableEncryption.ofJsonAt?_toJson place) (by cases encryption <;> rfl)]
  change _ = (replace? Value.settled? columns).map _
  cases replace? Value.settled? columns <;> rfl

theorem AlterAction.ofJsonAt?_toJson (place : Place) {action : AlterAction}
    (h : ∀ c ∈ action.columns, c.default ≠ some .null) :
    ofJsonAt? place action.toJson = replace? Value.settled? action := by
  cases action with
  | add column =>
      change (do return add (← ColumnDefinition.ofJsonAt? .tagged column.toJson)) =
        (replace? Value.settled? column).map add
      rw [ColumnDefinition.ofJsonAt?_toJson .tagged (h column (by simp [columns]))]
      cases replace? Value.settled? column <;> rfl
  | modify column =>
      change (do return modify (← ColumnDefinition.ofJsonAt? .tagged column.toJson)) =
        (replace? Value.settled? column).map modify
      rw [ColumnDefinition.ofJsonAt?_toJson .tagged (h column (by simp [columns]))]
      cases replace? Value.settled? column <;> rfl
  | drop name => rfl
  | rename name target => rfl

theorem SchemaChange.ofJson?_toJson {change : SchemaChange} (h : ∀ c ∈ change.columns, c.default ≠ some .null) :
    ofJson? change.toJson = replace? Value.settled? change := by
  cases change with
  | createTable blueprint =>
      change (do return createTable (← TableBlueprint.ofJsonAt? .tagged blueprint.toJson)) =
        (replace? Value.settled? blueprint).map createTable
      rw [TableBlueprint.ofJsonAt?_toJson .tagged h]
      cases replace? Value.settled? blueprint <;> rfl
  | alterTable actions =>
      have hactions := Value.asList?_written fun action haction =>
        AlterAction.ofJsonAt?_toJson .tagged fun c hc => h c (List.mem_flatMap.mpr ⟨action, haction, hc⟩)
      change (do return alterTable (← Value.asList? (AlterAction.ofJsonAt? .tagged)
        (.array (actions.map AlterAction.toJson)))) = (replace? Value.settled? actions).map alterTable
      rw [hactions]
      cases replace? Value.settled? actions <;> rfl
  | dropTable => rfl
  | createView sql => rfl
  | dropView => rfl
  | grant privileges principal =>
      change (do return grant (← (Value.ofTexts privileges).asTexts?) principal) = some (grant privileges principal)
      rw [Value.asTexts?_ofTexts]
      rfl
  | revoke privileges principal =>
      change (do return revoke (← (Value.ofTexts privileges).asTexts?) principal) = some (revoke privileges principal)
      rw [Value.asTexts?_ofTexts]
      rfl

end TableGate
