import TableGate.Proofs.Schema.ActionLists
import TableGate.Proofs.Schema.AddedColumns
import TableGate.Proofs.Schema.Drafts

/-! # Uniqueness

A column whose values are to be distinct is a key, or its clause says so, or it gets a unique index; for an
encrypted column this is so of the hashes of its values. The columns of new tables and those that are added
get it in every dialect. A column that is modified gets it in MySQL alone, for Postgres changes a column part
by part and none of the parts is its uniqueness. -/

namespace TableGate

/-! ## What statements ask for -/

namespace ColumnClause

/-- The clause makes the column the primary key of its table. -/
def IsKey (clause : ColumnClause) : Prop :=
  "PRIMARY KEY".toList <:+: clause.type.toList

/-- The clause asks for distinct values. -/
def Distinct (clause : ColumnClause) : Prop :=
  clause.unique = true ∨ clause.IsKey

instance (clause : ColumnClause) : Decidable clause.Distinct :=
  inferInstanceAs (Decidable (clause.unique = true ∨ "PRIMARY KEY".toList <:+: clause.type.toList))

end ColumnClause

namespace SchemaStatement

/-- A statement asks for distinct values in a column of a table. -/
def Distinguishes (table column : String) : SchemaStatement → Prop
  | .createTable name clauses =>
    name.text = table ∧ ∃ clause ∈ clauses, clause.name.text = column ∧ clause.Distinct
  | .addColumn name clause => name.text = table ∧ clause.name.text = column ∧ clause.Distinct
  | .modifyColumn name clause => name.text = table ∧ clause.name.text = column ∧ clause.Distinct
  | .createIndex unique _ name indexed => unique = true ∧ name.text = table ∧ indexed.text = column
  | _ => False

instance (table column : String) :
    (statement : SchemaStatement) → Decidable (statement.Distinguishes table column)
  | .createTable name clauses =>
    inferInstanceAs (Decidable (name.text = table ∧
      ∃ clause ∈ clauses, clause.name.text = column ∧ clause.Distinct))
  | .addColumn name clause | .modifyColumn name clause =>
    inferInstanceAs (Decidable (name.text = table ∧ clause.name.text = column ∧ clause.Distinct))
  | .createIndex unique _ name indexed =>
    inferInstanceAs (Decidable (unique = true ∧ name.text = table ∧ indexed.text = column))
  | .dropTable _ | .dropColumn .. | .setType .. | .setNullable .. | .setDefault .. | .renameColumn .. |
    .dropIndex _ | .createView .. | .dropView _ | .grant .. | .revoke .. => inferInstanceAs (Decidable False)

end SchemaStatement

/-- Steps ask for distinct values in a column of a table. -/
def SchemaStep.Distinguish (table column : String) (steps : List SchemaStep) : Prop :=
  ∃ step ∈ steps, step.statement.Distinguishes table column

instance (table column : String) (steps : List SchemaStep) :
    Decidable (SchemaStep.Distinguish table column steps) :=
  inferInstanceAs (Decidable (∃ step ∈ steps, step.statement.Distinguishes table column))

namespace ColumnDefinition

/-- The column in which values are compared: an encrypted column is searched by its hashes. -/
def compared (c : ColumnDefinition) : String :=
  if c.encrypted then c.hashColumn else c.name

variable {c : ColumnDefinition}

theorem isKey_typeText (d : Dialect) (h : c.type.isAutoIncrement = true) :
    "PRIMARY KEY".toList <:+: (c.typeText d).toList := by
  unfold typeText
  cases htype : c.type <;> simp only [htype, ColumnType.isAutoIncrement, Bool.false_eq_true] at h <;>
    cases d <;> dsimp only <;> decide +kernel

end ColumnDefinition

/-! ## New tables and added columns -/

namespace SchemaPlanner

variable {p : SchemaPlanner} {table : String} {name : Identifier} {s : TableState} {c : ColumnDefinition}

/-- A column of a new table asks for distinct values in its own clause, or in that of its hash column. -/
theorem exists_distinct_of_drafts {encryption : Option TableEncryption} {clauses : List ColumnClause}
    {effects : List CatalogEffect} {trailing : List SchemaStep}
    (h : Drafts p table encryption c clauses effects trailing) (hunique : c.unique = true) :
    ∃ clause ∈ clauses, clause.name.text = c.compared ∧ clause.Distinct := by
  have hkey : ∀ {clause : ColumnClause}, c.clause? p.dialect = .ok clause → c.type.isAutoIncrement = true →
      clause.Distinct := by
    intro clause hclause hcounted
    right
    rw [ColumnClause.IsKey, (ColumnDefinition.clause_of_clause? hclause).type]
    exact c.isKey_typeText p.dialect hcounted
  unfold ColumnDefinition.compared
  cases h with
  | @plain clause hplain hcounted hindex hclause =>
      exact ⟨clause, List.mem_singleton_self _, by simp [hplain, name_of_clause? hclause],
        hkey hclause (hcounted hunique)⟩
  | @unique clause hplain _ hcounted hclause =>
      exact ⟨_, List.mem_singleton_self _, by simp [hplain, name_of_clause? hclause], .inl rfl⟩
  | @indexed clause index hplain hcounted hindex hclause hstep =>
      exact ⟨clause, List.mem_singleton_self _, by simp [hplain, name_of_clause? hclause],
        hkey hclause (hcounted hunique)⟩
  | @sealed clause e hencrypted hsealed hcolumn hclause =>
      obtain ⟨-, -, hsearched⟩ := encryptedColumn?_eq_ok hcolumn
      rw [hsearched hunique] at hsealed
      cases hsealed
  | searchable hencrypted hsearchable hloose hcolumn hclause hhash hstep =>
      rw [hunique] at hloose
      cases hloose
  | @searchableUnique clause hashClause e hencrypted hsearchable _ hcolumn hclause hhash =>
      exact ⟨_, List.mem_cons_of_mem _ (List.mem_singleton_self _),
        by simp [hencrypted, name_of_hash? hhash], .inl rfl⟩

theorem distinguish_createTable? {b : TableBlueprint} {steps : List SchemaStep}
    (h : p.createTable? table b = .ok steps) (hc : c ∈ b.columns) (hunique : c.unique = true) :
    SchemaStep.Distinguish table c.compared steps := by
  obtain ⟨name, parts, times, hname, -, hparts, -, rfl⟩ := createTable?_eq_ok h
  obtain ⟨part, hpart, hdrafts⟩ := List.exists_of_mem_forall₂ hparts hc
  obtain ⟨clause, hclause, hnamed, hdistinct⟩ := exists_distinct_of_drafts hdrafts hunique
  refine ⟨_, List.mem_cons_self, hname, clause, List.mem_append_left _ ?_, hnamed, hdistinct⟩
  exact List.mem_flatMap.mpr ⟨part, hpart, hclause⟩

theorem distinguishes_createIndex? {column : String} {index : SchemaStatement}
    (h : createIndex? table column true = .ok index) : index.Distinguishes table column := by
  obtain ⟨n, t, k, rfl, -, ht, hk⟩ := createIndex?_eq_ok h
  exact ⟨rfl, ht, hk⟩

/-- With a column that is added comes a unique index on it, or on its hash column. -/
theorem distinguish_of_adds {steps : List SchemaStep} (h : Adds p table name c steps)
    (hunique : c.unique = true) : SchemaStep.Distinguish table c.compared steps := by
  unfold ColumnDefinition.compared
  cases h with
  | plain hplain hunindexed hclause => simp [hunique] at hunindexed
  | @indexed clause index hplain hindexed hclause hstep =>
      rw [hunique] at hstep
      refine ⟨⟨index, []⟩, by simp, ?_⟩
      simpa [hplain] using distinguishes_createIndex? hstep
  | sealed hencrypted hsealed hcounted hloose hname hclause =>
      rw [hunique] at hloose
      cases hloose
  | @searchable clause hashClause index hencrypted hsearchable hcounted hname hloose hhash hhashLoose hstep =>
      rw [hunique] at hstep
      refine ⟨⟨index, []⟩, by simp, ?_⟩
      simpa [hencrypted] using distinguishes_createIndex? hstep

/-! ## Modified columns -/

/-- A column that is modified asks for distinct values in its clause, where it has one: not in Postgres. -/
theorem distinguish_modify?_iff {steps : List SchemaStep} (hname : name.text = table)
    (h : p.modify? s name c = .ok steps) (hunique : c.unique = true) :
    SchemaStep.Distinguish table c.compared steps ↔ p.dialect ≠ .postgres := by
  unfold modify? at h
  split at h
  · cases h
  · rename_i hplain
    have hcompared : c.compared = c.name := by
      rw [Bool.or_eq_true, not_or] at hplain
      rw [ColumnDefinition.compared, if_neg hplain.1]
    split at h
    · cases h
    · rename_i hmysql
      simp only [Except.bind_eq_ok, Except.pure_eq_ok] at h
      obtain ⟨clause, hclause, rfl⟩ := h
      refine iff_of_true ⟨_, List.mem_singleton_self _, hname, ?_, .inl hunique⟩ (by simp [hmysql])
      rw [hcompared, ← name_of_clause? hclause]
    · rename_i hpostgres
      refine iff_of_false ?_ (by simp [hpostgres])
      split at h
      · cases h
      · simp only [Except.bind_eq_ok] at h
        obtain ⟨column, -, h⟩ := h
        split at h <;> simp only [Except.bind_eq_ok, Except.pure_eq_ok] at h
        · obtain ⟨_, _, _, rfl, rfl⟩ := h
          simp [SchemaStep.Distinguish, SchemaStatement.Distinguishes]
        · obtain ⟨_, rfl, rfl⟩ := h
          simp [SchemaStep.Distinguish, SchemaStatement.Distinguishes]

/-! ## All changes -/

theorem distinguish_action?_iff {a : AlterAction} {own : List SchemaStep} (ha : a = .add c ∨ a = .modify c)
    (hname : name.text = table) (h : p.action? table name s a = .ok own) (hunique : c.unique = true) :
    SchemaStep.Distinguish table c.compared own ↔ ¬ (p.dialect = .postgres ∧ a = .modify c) := by
  rcases ha with rfl | rfl
  · exact iff_of_true (distinguish_of_adds (adds_of_add? h) hunique) (by simp)
  · rw [distinguish_modify?_iff hname h hunique, and_iff_left rfl]

/-- Whatever is planned for a column whose values are to be distinct asks for it, but for its modification in
Postgres, which never does. -/
theorem distinguish_iff (hunique : c.unique = true) :
    (∀ b steps, p.createTable? table b = .ok steps → c ∈ b.columns →
      SchemaStep.Distinguish table c.compared steps) ∧
    ∀ before a after s steps, a = .add c ∨ a = .modify c →
      p.alterTable? table (before ++ a :: after) s = .ok steps →
        ∃ name earlier own later, steps = earlier ++ own ++ later ∧ Identifier.of? table = .ok name ∧
          p.actions? table name s before = .ok earlier ∧
          p.action? table name (s.applySteps earlier) a = .ok own ∧
          (SchemaStep.Distinguish table c.compared own ↔ ¬ (p.dialect = .postgres ∧ a = .modify c)) := by
  refine ⟨fun b steps h hc => distinguish_createTable? h hc hunique, ?_⟩
  intro before a after s steps ha h
  obtain ⟨name, hname, hactions⟩ := alterTable?_eq_ok h
  obtain ⟨earlier, _, hearlier, hrest, rfl⟩ := actions?_append.mp hactions
  obtain ⟨own, later, hown, -, rfl⟩ := actions?_cons.mp hrest
  exact ⟨name, earlier, own, later, (List.append_assoc ..).symm, hname, hearlier, hown,
    distinguish_action?_iff ha (Identifier.of?_eq_ok hname) hown hunique⟩

/-- In MySQL a column is unique in a new table, and again when it is modified after another action. -/
theorem distinguish_iff_email :
    let p : SchemaPlanner := ⟨.mysql, .guarded, .chacha20Poly1305⟩
    let c : ColumnDefinition := { name := "email", type := .string, unique := true }
    (∃ steps, p.createTable? "users" { columns := [c] } = .ok steps ∧
      SchemaStep.Distinguish "users" "email" steps) ∧
    ∃ earlier own later,
      p.alterTable? "users" [.rename "mail" "email", .modify c] {} = .ok (earlier ++ own ++ later) ∧
        SchemaStep.Distinguish "users" "email" own := by
  intro p c
  obtain ⟨hcreated, haltered⟩ := @distinguish_iff p "users" c rfl
  refine ⟨?_, ?_⟩
  · obtain ⟨steps, hsteps⟩ : ∃ steps, p.createTable? "users" { columns := [c] } = .ok steps :=
      Except.exists_of_isOk (by decide +kernel)
    exact ⟨steps, hsteps, hcreated _ steps hsteps List.mem_cons_self⟩
  · obtain ⟨steps, hsteps⟩ : ∃ steps,
        p.alterTable? "users" ([.rename "mail" "email"] ++ .modify c :: []) {} = .ok steps :=
      Except.exists_of_isOk (by decide +kernel)
    obtain ⟨name, earlier, own, later, rfl, -, -, -, hdistinguish⟩ :=
      haltered [.rename "mail" "email"] (.modify c) [] {} steps (.inr rfl) hsteps
    exact ⟨earlier, own, later, hsteps, hdistinguish.mpr fun h => Dialect.noConfusion h.1⟩

/-- In Postgres the modification of a column sets its type and whether it may be null, and nothing else. -/
theorem distinguish_modified_postgres :
    let p : SchemaPlanner := ⟨.postgres, .guarded, .chacha20Poly1305⟩
    let c : ColumnDefinition := { name := "email", type := .string, unique := true }
    c.unique = true ∧ ∃ steps, p.alterTable? "users" [.modify c] {} = .ok steps ∧
      ¬ SchemaStep.Distinguish "users" c.compared steps := by
  intro p c
  obtain ⟨steps, hsteps, hnever⟩ := Except.exists_of_any (x := p.alterTable? "users" [.modify c] {})
    (p := fun steps => decide (¬ SchemaStep.Distinguish "users" c.compared steps)) (by decide +kernel)
  exact ⟨rfl, steps, hsteps, of_decide_eq_true hnever⟩

end SchemaPlanner

end TableGate
