import Mathlib.Data.List.Nodup
import Mathlib.Data.List.Perm.Basic
import TableGate.Proofs.Schema.Drafts

/-! # The columns of a new table

A column defines itself and, if it can be searched, its hash column. Only the names that a blueprint asks for are
compared with each other: the times are left out where there is such a name, but the name of a hash column may
be one of them. -/

namespace TableGate

namespace ColumnDefinition

/-- The hash column of a column that is encrypted and can be searched. -/
def hashColumns (c : ColumnDefinition) : List String :=
  if c.encrypted && c.isSearchable then [c.hashColumn] else []

/-- The names that a column defines in a new table. -/
def defined (c : ColumnDefinition) : List String :=
  c.name :: c.hashColumns

end ColumnDefinition

/-- The names of the columns of a new table, in their order. -/
def TableBlueprint.defined (b : TableBlueprint) : List String :=
  b.columns.flatMap ColumnDefinition.defined ++ b.addedTimes

/-! ## The names of what is drafted -/

namespace Drafts

open SchemaPlanner

variable {p : SchemaPlanner} {table : String} {encryption : Option TableEncryption}

theorem names {c : ColumnDefinition} {clauses : List ColumnClause} {effects : List CatalogEffect}
    {trailing : List SchemaStep} (h : Drafts p table encryption c clauses effects trailing) :
    clauses.map (·.name.text) = c.defined := by
  unfold ColumnDefinition.defined ColumnDefinition.hashColumns
  cases h with
  | plain hplain _ _ hclause => simp [hplain, name_of_clause? hclause]
  | unique hplain _ _ hclause => simp [hplain, name_of_clause? hclause]
  | indexed hplain _ _ hclause => simp [hplain, name_of_clause? hclause]
  | sealed hencrypted hsealed _ hclause => simp [hsealed, name_of_encryptedClause? hclause]
  | searchable hencrypted hsearchable _ _ hclause hhash =>
      simp [hencrypted, hsearchable, name_of_encryptedClause? hclause, name_of_hash? hhash]
  | searchableUnique hencrypted hsearchable _ _ hclause hhash =>
      simp [hencrypted, hsearchable, name_of_encryptedClause? hclause, name_of_hash? hhash]

theorem names_parts {columns : List ColumnDefinition}
    {parts : List (List ColumnClause × List CatalogEffect × List SchemaStep)}
    (h : List.Forall₂ (fun c part => Drafts p table encryption c part.1 part.2.1 part.2.2) columns parts) :
    (parts.flatMap (·.1)).map (·.name.text) = columns.flatMap ColumnDefinition.defined := by
  induction h with
  | nil => rfl
  | cons hpart _ ih => rw [List.flatMap_cons, List.map_append, hpart.names, ih, List.flatMap_cons]

end Drafts

theorem SchemaPlanner.names_times {times : List String} {clauses : List ColumnClause}
    (h : List.Forall₂ (fun time clause => ColumnClause.timestamp? time = .ok clause) times clauses) :
    clauses.map (·.name.text) = times := by
  induction h with
  | nil => rfl
  | cons htime _ ih => rw [List.map_cons, name_of_timestamp? htime, ih]

/-! ## Which names can meet -/

theorem EncryptedColumn.hashName_injective : Function.Injective hashName :=
  fun column column' h => by
    have hchars : column.toList ++ "_hash".toList = column'.toList ++ "_hash".toList := by
      rw [← String.toList_append, ← String.toList_append]
      exact congrArg String.toList h
    exact String.toList_inj.mp (List.append_cancel_right hchars)

/-- No time is kept where the hashes of a column are. -/
theorem TableBlueprint.hashName_notMem_times (b : TableBlueprint) (column : String) :
    EncryptedColumn.hashName column ∉ b.times := by
  have hlast : (EncryptedColumn.hashName column).toList.getLast? = some 'h' := by
    simp [EncryptedColumn.hashName]
  have htimes : ∀ time ∈ b.times, time.toList.getLast? = some 't' := by
    cases hstamps : b.timestamps <;> cases hsoft : b.softDelete <;>
      simp [times, hstamps, hsoft, defaultSoftDelete]
  intro hmem
  rw [htimes _ hmem] at hlast
  exact absurd hlast (by decide)

theorem ColumnDefinition.mem_hashColumns {c : ColumnDefinition} {column : String} :
    column ∈ c.hashColumns ↔ c.encrypted = true ∧ c.isSearchable = true ∧ column = c.hashColumn := by
  simp [hashColumns, and_assoc]

/-- The hash columns of columns with different names have different names. -/
theorem ColumnDefinition.nodup_hashColumns {columns : List ColumnDefinition}
    (h : (columns.map name).Nodup) : (columns.flatMap hashColumns).Nodup := by
  refine List.nodup_flatMap.mpr ⟨fun c _ => ?_, (List.pairwise_map.mp h).imp fun {c c'} hne => ?_⟩
  · unfold hashColumns
    split <;> simp
  · rintro column hc hc'
    obtain ⟨-, -, rfl⟩ := mem_hashColumns.mp hc
    obtain ⟨-, -, hsame⟩ := mem_hashColumns.mp hc'
    exact hne (EncryptedColumn.hashName_injective hsame)

/-- Where no two columns are given the same name, the names of a new table differ unless a hash column is also
one of the columns that are asked for. -/
theorem TableBlueprint.nodup_defined_iff {b : TableBlueprint} (h : b.named.Nodup) :
    b.defined.Nodup ↔
      ∀ c ∈ b.columns, c.encrypted = true → c.isSearchable = true → c.hashColumn ∉ b.named := by
  have hperm : (b.named ++ b.columns.flatMap ColumnDefinition.hashColumns).Perm
      (b.columns.flatMap ColumnDefinition.defined) :=
    List.map_append_flatMap_perm _ _ _
  constructor
  · intro hnodup c hc hencrypted hsearchable hnamed
    have happend := hperm.nodup_iff.mpr hnodup.of_append_left
    exact List.disjoint_of_nodup_append happend hnamed
      (List.mem_flatMap.mpr ⟨c, hc, ColumnDefinition.mem_hashColumns.mpr ⟨hencrypted, hsearchable, rfl⟩⟩)
  · intro hfree
    have hdisjoint : b.named.Disjoint (b.columns.flatMap ColumnDefinition.hashColumns) := by
      intro column hnamed hhash
      obtain ⟨c, hc, hmem⟩ := List.mem_flatMap.mp hhash
      obtain ⟨hencrypted, hsearchable, rfl⟩ := ColumnDefinition.mem_hashColumns.mp hmem
      exact hfree c hc hencrypted hsearchable hnamed
    have hasked := hperm.nodup_iff.mp (h.append (ColumnDefinition.nodup_hashColumns h) hdisjoint)
    refine hasked.append (b.nodup_times.filter _) fun column hdefined htime => ?_
    obtain ⟨htime, hnew⟩ := List.mem_filter.mp htime
    rcases List.mem_append.mp (hperm.mem_iff.mpr hdefined) with hnamed | hhash
    · exact of_decide_eq_true hnew hnamed
    · obtain ⟨c, -, hmem⟩ := List.mem_flatMap.mp hhash
      obtain ⟨-, -, rfl⟩ := ColumnDefinition.mem_hashColumns.mp hmem
      exact b.hashName_notMem_times c.name htime

namespace SchemaPlanner

/-- The columns of a table that is created are those that the blueprint asks for, each with its hash column,
and the times. They differ exactly if no hash column is also asked for by its name. -/
theorem createTable?_names {p : SchemaPlanner} {table : String} {b : TableBlueprint}
    {steps : List SchemaStep} (h : p.createTable? table b = .ok steps) :
    ∃ name clauses effects trailing, steps = ⟨.createTable name clauses, effects⟩ :: trailing ∧
      name.text = table ∧ clauses.map (·.name.text) = b.defined ∧ b.named.Nodup ∧
      ((clauses.map (·.name.text)).Nodup ↔
        ∀ c ∈ b.columns, c.encrypted = true → c.isSearchable = true → c.hashColumn ∉ b.named) := by
  obtain ⟨name, parts, times, hname, hnamed, hparts, htimes, rfl⟩ := createTable?_eq_ok h
  have hdefined : (parts.flatMap (·.1) ++ times).map (·.name.text) = b.defined := by
    rw [List.map_append, Drafts.names_parts hparts, names_times htimes, TableBlueprint.defined]
  exact ⟨name, _, _, _, rfl, hname, hdefined, hnamed, hdefined ▸ TableBlueprint.nodup_defined_iff hnamed⟩

theorem createTable?_names_users :
    let b : TableBlueprint :=
      { columns := [{ name := "id", type := .increments },
          { name := "email", type := .string, unique := true, encrypted := true }]
        softDelete := true, timestamps := true }
    ∃ name clauses effects trailing,
      (⟨.sqlite, .trusted, .chacha20Poly1305⟩ : SchemaPlanner).createTable? "users" b =
        .ok (⟨.createTable name clauses, effects⟩ :: trailing) ∧
      clauses.map (·.name.text) = ["id", "email", "email_hash", "created_at", "updated_at", "deleted_at"] ∧
      (clauses.map (·.name.text)).Nodup := by
  intro b
  obtain ⟨steps, hsteps⟩ := Except.exists_of_isOk
    (show ((⟨.sqlite, .trusted, .chacha20Poly1305⟩ : SchemaPlanner).createTable? "users" b).isOk = true from rfl)
  obtain ⟨name, clauses, effects, trailing, rfl, -, hdefined, -, hnodup⟩ := createTable?_names hsteps
  exact ⟨name, clauses, effects, trailing, hsteps, hdefined.trans rfl, hnodup.mpr (by decide)⟩

/-- A column may be asked for by the name of the hash column of another one. -/
theorem createTable?_hash_twice :
    ∃ name clauses effects trailing,
      (⟨.sqlite, .trusted, .chacha20Poly1305⟩ : SchemaPlanner).createTable? "users"
          { columns := [{ name := "email", type := .string, encrypted := true },
            { name := "email_hash", type := .string }] } =
        .ok (⟨.createTable name clauses, effects⟩ :: trailing) ∧
      clauses.map (·.name.text) = ["email", "email_hash", "email_hash"] ∧
      ¬ (clauses.map (·.name.text)).Nodup :=
  ⟨_, _, _, _, rfl, rfl, by decide⟩

end SchemaPlanner

end TableGate
