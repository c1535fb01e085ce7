import TableGate.Proofs.Schema.Indexes
import TableGate.Proofs.Schema.Remembered

/-! # Added and dropped columns

The steps that add a column to a table, and those that drop one, with the indexes that they make and drop. -/

namespace TableGate

/-! ## The clauses of columns -/

namespace ColumnDefinition

/-- What a clause takes from the definition of a column that is not encrypted. -/
structure Clause (d : Dialect) (c : ColumnDefinition) (clause : ColumnClause) : Prop where
  name : clause.name.text = c.name
  type : clause.type = c.typeText d
  autoIncrement : clause.autoIncrement = c.type.isAutoIncrement
  unique : clause.unique = false

theorem Clause.isUnique {d : Dialect} {c : ColumnDefinition} {clause : ColumnClause}
    (h : c.Clause d clause) : clause.isUnique = c.type.isAutoIncrement := by
  rw [ColumnClause.isUnique, h.unique, h.autoIncrement, Bool.false_or]

theorem clause_of_clause? {d : Dialect} {c : ColumnDefinition} {clause : ColumnClause}
    (h : c.clause? d = .ok clause) : c.Clause d clause := by
  have hname := SchemaPlanner.name_of_clause? h
  simp only [clause?, Except.bind_eq_ok] at h
  obtain ⟨n, -, h⟩ := h
  split at h
  · simp only [Except.bind_eq_ok, Except.pure_eq_ok] at h
    obtain ⟨_, _, rfl⟩ := h
    exact ⟨hname, rfl, rfl, rfl⟩
  · split at h <;> simp only [Except.bind_eq_ok, Except.pure_eq_ok] at h
    · obtain ⟨_, _, _, _, rfl⟩ := h
      exact ⟨hname, rfl, rfl, rfl⟩
    · obtain ⟨_, _, rfl⟩ := h
      exact ⟨hname, rfl, rfl, rfl⟩

end ColumnDefinition

/-- The clause asks neither for distinct values nor for a key. -/
structure ColumnClause.Loose (clause : ColumnClause) : Prop where
  autoIncrement : clause.autoIncrement = false
  unique : clause.unique = false

namespace ColumnClause

theorem Loose.isUnique {clause : ColumnClause} (h : clause.Loose) : clause.isUnique = false := by
  rw [ColumnClause.isUnique, h.unique, h.autoIncrement, Bool.or_false]

theorem loose_of_encryptedClause? {c : ColumnDefinition} {clause : ColumnClause}
    (h : c.encryptedClause? = .ok clause) : clause.Loose := by
  simp only [ColumnDefinition.encryptedClause?, Except.bind_eq_ok, Except.pure_eq_ok] at h
  obtain ⟨n, -, rfl⟩ := h
  exact ⟨rfl, rfl⟩

theorem loose_of_hash? {column : String} {clause : ColumnClause} (h : hash? column = .ok clause) :
    clause.Loose := by
  simp only [hash?, Except.bind_eq_ok, Except.pure_eq_ok] at h
  obtain ⟨n, -, rfl⟩ := h
  exact ⟨rfl, rfl⟩

end ColumnClause

/-! ## Adding a column -/

/-- How an encrypted column is registered. -/
def SchemaPlanner.registration (p : SchemaPlanner) (encryption : Option TableEncryption)
    (c : ColumnDefinition) : EncryptedColumn where
  column := c.name
  algorithm := (encryption.bind TableEncryption.algorithm).getD p.algorithm
  keyVersion := encryption.bind TableEncryption.keyVersion
  hashColumn := if c.isSearchable then some c.hashColumn else none

/-- The steps that add a column to a table. -/
inductive Adds (p : SchemaPlanner) (table : String) (name : Identifier) (c : ColumnDefinition) :
    List SchemaStep → Prop
  | plain {clause : ColumnClause} (hplain : c.encrypted = false) (hunindexed : (c.unique || c.index) = false)
      (hclause : c.Clause p.dialect clause) :
      Adds p table name c [⟨.addColumn name clause, []⟩]
  | indexed {clause : ColumnClause} {index : SchemaStatement} (hplain : c.encrypted = false)
      (hindexed : (c.unique || c.index) = true) (hclause : c.Clause p.dialect clause)
      (hstep : createIndex? table c.name c.unique = .ok index) :
      Adds p table name c [⟨.addColumn name clause, []⟩, ⟨index, []⟩]
  | sealed {clause : ColumnClause} (hencrypted : c.encrypted = true) (hsealed : c.isSearchable = false)
      (hcounted : c.type.isAutoIncrement = false) (hunique : c.unique = false)
      (hname : clause.name.text = c.name) (hloose : clause.Loose) :
      Adds p table name c [⟨.addColumn name clause, [.registerEncrypted (p.registration none c)]⟩]
  | searchable {clause hashClause : ColumnClause} {index : SchemaStatement} (hencrypted : c.encrypted = true)
      (hsearchable : c.isSearchable = true) (hcounted : c.type.isAutoIncrement = false)
      (hname : clause.name.text = c.name) (hloose : clause.Loose)
      (hhash : hashClause.name.text = c.hashColumn) (hhashLoose : hashClause.Loose)
      (hstep : createIndex? table c.hashColumn c.unique = .ok index) :
      Adds p table name c [⟨.addColumn name clause, []⟩,
        ⟨.addColumn name hashClause, [.registerEncrypted (p.registration none c)]⟩, ⟨index, []⟩]

/-- The columns that an index is made on with a column that is added. -/
def ColumnDefinition.indexed (c : ColumnDefinition) : List String :=
  if c.encrypted then if c.isSearchable then [c.hashColumn] else []
  else if c.unique || c.index then [c.name] else []

theorem Adds.indexesAfter {p : SchemaPlanner} {table : String} {name : Identifier} {c : ColumnDefinition}
    {steps : List SchemaStep} (h : Adds p table name c steps) (d : Dialect) (indexes : Finset TableIndex) :
    SchemaStep.indexesAfter d indexes steps =
      c.indexed.foldr (fun column => insert (TableIndex.made table column c.unique)) indexes := by
  have hmade : ∀ {column : String} {index : SchemaStatement},
      createIndex? table column c.unique = .ok index →
        index.indexesAfter d indexes = insert (TableIndex.made table column c.unique) indexes := by
    intro column index hindex
    obtain ⟨n, t, k, rfl, hn, rfl, rfl⟩ := SchemaPlanner.createIndex?_eq_ok hindex
    rw [SchemaStatement.indexesAfter, TableIndex.made, TableIndex.moved, hn]
  unfold ColumnDefinition.indexed
  cases h with
  | plain hplain hunindexed hclause => simp [hplain, hunindexed, SchemaStatement.indexesAfter]
  | @indexed clause index hplain hindexed hclause hstep =>
      change index.indexesAfter d indexes = _
      simp [hmade hstep, hplain, hindexed]
  | sealed hencrypted hsealed hcounted hunique hname hloose =>
      simp [hencrypted, hsealed, SchemaStatement.indexesAfter]
  | @searchable clause hashClause index hencrypted hsearchable hcounted hname hloose hhash hhashLoose hstep =>
      change index.indexesAfter d indexes = _
      simp [hmade hstep, hencrypted, hsearchable]

namespace SchemaPlanner

variable {p : SchemaPlanner} {table : String} {name : Identifier} {s : TableState}
  {c : ColumnDefinition} {steps : List SchemaStep}

theorem encryptedColumn?_eq_ok {encryption : Option TableEncryption} {e : EncryptedColumn}
    (h : p.encryptedColumn? c encryption = .ok e) :
    e = p.registration encryption c ∧ c.type.isAutoIncrement = false ∧
      (c.unique = true → c.isSearchable = true) := by
  unfold encryptedColumn? at h
  split at h
  · cases h
  · rename_i hcounted
    split at h
    · cases h
    · split at h
      · cases h
      · rename_i hunique
        cases h
        exact ⟨rfl, by simpa using hcounted, by simpa using hunique⟩

/-- Everything that is planned for a column that is added. -/
theorem adds_of_add? (h : p.add? table name c = .ok steps) : Adds p table name c steps := by
  unfold add? at h
  split at h
  · rename_i hencrypted
    simp only [Except.bind_eq_ok] at h
    obtain ⟨e, he, clause, hclause, h⟩ := h
    obtain ⟨rfl, hcounted, hunique⟩ := encryptedColumn?_eq_ok he
    have hname := name_of_encryptedClause? hclause
    have hloose := ColumnClause.loose_of_encryptedClause? hclause
    cases hsearchable : c.isSearchable with
    | false =>
        simp only [registration, hsearchable, Bool.false_eq_true, if_false, Except.pure_eq_ok] at h
        subst h
        have hnot : c.unique = false := by simpa [hsearchable] using hunique
        have hsteps : Adds p table name c
            [⟨.addColumn name clause, [.registerEncrypted (p.registration none c)]⟩] :=
          .sealed hencrypted hsearchable hcounted hnot hname hloose
        simpa [registration, hsearchable] using hsteps
    | true =>
        simp only [registration, hsearchable, if_true, Except.bind_eq_ok, Except.pure_eq_ok] at h
        obtain ⟨hashClause, hhash, index, hindex, rfl⟩ := h
        have hsteps : Adds p table name c [⟨.addColumn name clause, []⟩,
            ⟨.addColumn name hashClause, [.registerEncrypted (p.registration none c)]⟩, ⟨index, []⟩] :=
          .searchable hencrypted hsearchable hcounted hname hloose (name_of_hash? hhash)
            (ColumnClause.loose_of_hash? hhash) hindex
        simpa [registration, hsearchable] using hsteps
  · rename_i hplain
    simp only [Except.bind_eq_ok] at h
    obtain ⟨clause, hclause, h⟩ := h
    rw [Bool.not_eq_true] at hplain
    have hclause := ColumnDefinition.clause_of_clause? hclause
    split at h
    · rename_i hindexed
      simp only [Except.bind_eq_ok, Except.pure_eq_ok] at h
      obtain ⟨index, hindex, rfl⟩ := h
      exact .indexed hplain hindexed hclause hindex
    · rename_i hunindexed
      cases h
      exact .plain hplain (by simpa using hunindexed) hclause

end SchemaPlanner

/-! ## Dropping a column -/

/-- The column whose indexes are dropped with a column. -/
def TableState.indexColumn (s : TableState) (column : String) : String :=
  ((s.encryptedColumn? column).bind EncryptedColumn.hashColumn).getD column

/-- The steps that drop a column of a table. In SQLite the indexes go first, by the names that they have if they
were made for the column as it is called now. -/
inductive Drops (p : SchemaPlanner) (table : String) (name : Identifier) (s : TableState) (column : String) :
    List SchemaStep → Prop
  | sqlite {plain unique dropped : Identifier} {hash : Option Identifier} (hsqlite : p.dialect = .sqlite)
      (hplain : plain.text = TableIndex.nameFor false table (s.indexColumn column))
      (hunique : unique.text = TableIndex.nameFor true table (s.indexColumn column))
      (hdropped : dropped.text = column)
      (hhash : (s.encryptedColumn? column).bind EncryptedColumn.hashColumn = hash.map Identifier.text) :
      Drops p table name s column (⟨.dropIndex plain, []⟩ :: ⟨.dropIndex unique, []⟩ ::
        ⟨.dropColumn name dropped, s.dropEffects column⟩ ::
          (hash.map fun h => SchemaStep.mk (.dropColumn name h) []).toList)
  | other {dropped : Identifier} {hash : Option Identifier} (hother : p.dialect ≠ .sqlite)
      (hdropped : dropped.text = column)
      (hhash : (s.encryptedColumn? column).bind EncryptedColumn.hashColumn = hash.map Identifier.text) :
      Drops p table name s column (⟨.dropColumn name dropped, s.dropEffects column⟩ ::
          (hash.map fun h => SchemaStep.mk (.dropColumn name h) []).toList)

namespace SchemaPlanner

variable {p : SchemaPlanner} {table : String} {name : Identifier} {s : TableState}
  {column : String} {steps : List SchemaStep}

theorem dropIndexes?_eq_ok (h : p.dropIndexes? table column = .ok steps) :
    (p.dialect = .sqlite ∧ ∃ plain unique : Identifier,
      plain.text = TableIndex.nameFor false table column ∧
      unique.text = TableIndex.nameFor true table column ∧
      steps = [⟨.dropIndex plain, []⟩, ⟨.dropIndex unique, []⟩]) ∨
    (p.dialect ≠ .sqlite ∧ steps = []) := by
  unfold dropIndexes? at h
  split at h
  · rename_i hsqlite
    simp only [Except.bind_eq_ok, Except.pure_eq_ok] at h
    obtain ⟨plain, hplain, unique, hunique, rfl⟩ := h
    exact .inl ⟨hsqlite, plain, unique, Identifier.of?_eq_ok hplain, Identifier.of?_eq_ok hunique, rfl⟩
  · rename_i hother
    cases h
    exact .inr ⟨hother, rfl⟩

/-- Everything that is planned for a column that is dropped. -/
theorem drops_of_drop? (h : p.drop? table s name column = .ok steps) :
    Drops p table name s column steps := by
  simp only [drop?, Except.bind_eq_ok] at h
  obtain ⟨indexes, hindexes, dropped, hdropped, h⟩ := h
  have hdropped := Identifier.of?_eq_ok hdropped
  have hsteps : ∃ hash : Option Identifier,
      (s.encryptedColumn? column).bind EncryptedColumn.hashColumn = hash.map Identifier.text ∧
        steps = indexes ++ ⟨.dropColumn name dropped, s.dropEffects column⟩ ::
          (hash.map fun h => SchemaStep.mk (.dropColumn name h) []).toList := by
    split at h <;> rename_i hhash <;> simp only [Except.bind_eq_ok, Except.pure_eq_ok] at h
    · obtain ⟨n, hn, _, rfl, rfl⟩ := h
      exact ⟨some n, by rw [hhash, ← Identifier.of?_eq_ok hn]; rfl, rfl⟩
    · obtain ⟨_, rfl, rfl⟩ := h
      exact ⟨none, hhash, rfl⟩
  obtain ⟨hash, hhash, rfl⟩ := hsteps
  rcases dropIndexes?_eq_ok hindexes with ⟨hsqlite, plain, unique, hplain, hunique, rfl⟩ | ⟨hother, rfl⟩
  · exact .sqlite hsqlite hplain hunique hdropped hhash
  · exact .other hother hdropped hhash

/-- A column can always be dropped if it, its table and its hash column have identifiers for names. -/
theorem exists_drop? {altered dropped : Identifier} {hash : Option Identifier}
    (hhash : (s.encryptedColumn? dropped.text).bind EncryptedColumn.hashColumn =
      hash.map Identifier.text) :
    ∃ steps, p.drop? altered.text s name dropped.text = .ok steps := by
  have hindexes : ∃ indexes, p.dropIndexes? altered.text (s.indexColumn dropped.text) = .ok indexes := by
    obtain ⟨indexed, hindexed⟩ : ∃ n : Identifier, s.indexColumn dropped.text = n.text := by
      rw [TableState.indexColumn, hhash]
      cases hash with
      | none => exact ⟨dropped, rfl⟩
      | some h => exact ⟨h, rfl⟩
    obtain ⟨plain, hplain⟩ := exists_indexName? false altered indexed
    obtain ⟨unique, hunique⟩ := exists_indexName? true altered indexed
    simp only [Bool.false_eq_true, if_false, if_true] at hplain hunique
    rw [hindexed]
    unfold dropIndexes?
    split
    · exact ⟨_, Except.bind_eq_ok.mpr ⟨plain, hplain, Except.bind_eq_ok.mpr ⟨unique, hunique, rfl⟩⟩⟩
    · exact ⟨_, rfl⟩
  obtain ⟨indexes, hindexes⟩ := hindexes
  rw [TableState.indexColumn, hhash] at hindexes
  simp only [drop?, hhash]
  cases hash with
  | none =>
      exact ⟨_, Except.bind_eq_ok.mpr ⟨indexes, hindexes,
        Except.bind_eq_ok.mpr ⟨dropped, dropped.of?_text, rfl⟩⟩⟩
  | some h =>
      exact ⟨_, Except.bind_eq_ok.mpr ⟨indexes, hindexes, Except.bind_eq_ok.mpr ⟨dropped, dropped.of?_text,
        Except.bind_eq_ok.mpr ⟨h, h.of?_text, rfl⟩⟩⟩⟩

end SchemaPlanner

/-- The column whose indexes are dropped with a column goes with it, or is that column. -/
theorem TableState.indexColumn_mem_taken (s : TableState) (column : String) :
    s.indexColumn column ∈ s.taken (.drop column) := by
  rw [indexColumn, taken]
  cases (s.encryptedColumn? column).bind EncryptedColumn.hashColumn <;> simp

/-- Dropping indexes by the two names that are made for a column leaves those that have neither. -/
theorem TableIndex.mem_filter_nameFor {table column : String} {plain unique : Identifier}
    (hplain : plain.text = nameFor false table column) (hunique : unique.text = nameFor true table column)
    {indexes : Finset TableIndex} {i : TableIndex} :
    i ∈ (indexes.filter (·.name ≠ plain.text)).filter (·.name ≠ unique.text) ↔
      i ∈ indexes ∧ ∀ isUnique, i.name ≠ nameFor isUnique table column := by
  rw [Finset.mem_filter, Finset.mem_filter, hplain, hunique, Bool.forall_bool, and_assoc]

namespace Drops

variable {p : SchemaPlanner} {table : String} {name : Identifier} {s : TableState} {column : String}
  {steps : List SchemaStep}

theorem applySteps (h : Drops p table name s column steps) :
    s.applySteps steps = (s.dropEffects column).foldl TableState.apply s := by
  cases h with
  | @sqlite plain unique dropped hash hsqlite hplain hunique hdropped hhash =>
      cases hash <;> simp [TableState.applySteps]
  | @other dropped hash hother hdropped hhash => cases hash <;> simp [TableState.applySteps]

/-- In SQLite an index goes with a column if it has the name for the column as it is called now, and elsewhere
if it is on it. -/
theorem mem_indexesAfter (h : Drops p name.text name s column steps) {indexes : Finset TableIndex}
    {i : TableIndex} : i ∈ SchemaStep.indexesAfter p.dialect indexes steps ↔ i ∈ indexes ∧
      if p.dialect = .sqlite then ∀ unique, i.name ≠ TableIndex.nameFor unique name.text (s.indexColumn column)
      else ∀ taken ∈ s.taken (.drop column), ¬ i.On name.text taken := by
  cases h with
  | @sqlite plain unique dropped hash hsqlite hplain hunique hdropped hhash =>
      have hafter : SchemaStep.indexesAfter p.dialect indexes (⟨.dropIndex plain, []⟩ ::
          ⟨.dropIndex unique, []⟩ :: ⟨.dropColumn name dropped, s.dropEffects column⟩ ::
            (hash.map fun h => SchemaStep.mk (.dropColumn name h) []).toList) =
          (indexes.filter (·.name ≠ plain.text)).filter (·.name ≠ unique.text) := by
        cases hash <;> simp [SchemaStatement.indexesAfter, hsqlite]
      rw [hafter, if_pos hsqlite, TableIndex.mem_filter_nameFor hplain hunique]
  | @other dropped hash hother hdropped hhash =>
      rw [if_neg hother, TableState.taken, hhash]
      cases hash <;> simp [SchemaStatement.indexesAfter, hother, hdropped, and_assoc]

end Drops

/-! ## Dropping a column that has been added -/

namespace ColumnDefinition

theorem hashColumn_ne_name (c : ColumnDefinition) : c.hashColumn ≠ c.name := by
  intro h
  have hlength := congrArg String.length h
  simp [ColumnDefinition.hashColumn, EncryptedColumn.hashName] at hlength

theorem name_mem_given (c : ColumnDefinition) : c.name ∈ (AlterAction.add c).given := by
  rw [AlterAction.given]
  split <;> simp

theorem nodup_given (c : ColumnDefinition) : (AlterAction.add c).given.Nodup := by
  rw [AlterAction.given]
  split
  · simpa using c.hashColumn_ne_name.symm
  · simp

end ColumnDefinition

namespace EncryptedColumn

variable {columns : List EncryptedColumn}

theorem find?_register (columns : List EncryptedColumn) (e : EncryptedColumn) :
    find? (register columns e) e.column = some e := by
  have hothers : find? (columns.filter fun old => old.column != e.column) e.column = none := by
    simp [find?]
  rw [find?] at hothers ⊢
  rw [register, List.find?_append, hothers]
  simp

theorem unregister_eq_self {column : String} (h : ∀ old ∈ columns, old.column ≠ column) :
    unregister columns column = columns :=
  List.filter_eq_self.mpr fun old hold => by simpa using h old hold

theorem unregister_register {e : EncryptedColumn} (h : ∀ old ∈ columns, old.column ≠ e.column) :
    unregister (register columns e) e.column = columns := by
  have hkept := unregister_eq_self h
  rw [unregister] at hkept ⊢
  rw [register, hkept, List.filter_append, hkept]
  simp

end EncryptedColumn

namespace Adds

variable {p : SchemaPlanner} {table : String} {name : Identifier} {s : TableState}
  {c : ColumnDefinition} {steps : List SchemaStep}

theorem applySteps (h : Adds p table name c steps) (s : TableState) :
    s.applySteps steps =
      if c.encrypted then s.apply (.registerEncrypted (p.registration none c)) else s := by
  cases h with
  | plain hplain hunindexed hclause => simp [TableState.applySteps, hplain]
  | indexed hplain hindexed hclause hstep => simp [TableState.applySteps, hplain]
  | sealed hencrypted hsealed hcounted hunique hname hloose => simp [TableState.applySteps, hencrypted]
  | searchable hencrypted hsearchable hcounted hname hloose hhash hhashLoose hstep =>
      simp [TableState.applySteps, hencrypted]

theorem encryptedColumn?_applySteps (h : Adds p table name c steps)
    (hplain : s.encryptedColumn? c.name = none) :
    (s.applySteps steps).encryptedColumn? c.name =
      if c.encrypted then some (p.registration none c) else none := by
  rw [h.applySteps]
  split
  · exact EncryptedColumn.find?_register s.encrypted (p.registration none c)
  · exact hplain

/-- Dropping a column that has been added takes out what has been brought. -/
theorem taken_drop (h : Adds p table name c steps) (hplain : s.encryptedColumn? c.name = none) :
    (s.applySteps steps).taken (.drop c.name) = (AlterAction.add c).given := by
  rw [TableState.taken, h.encryptedColumn?_applySteps hplain, AlterAction.given]
  cases c.encrypted <;> cases hsearchable : c.isSearchable <;>
    simp [SchemaPlanner.registration, hsearchable]

/-- The indexes that are made with a column are found when it is dropped. -/
theorem eq_indexColumn (h : Adds p table name c steps) (hplain : s.encryptedColumn? c.name = none)
    {column : String} (hcolumn : column ∈ c.indexed) :
    column = (s.applySteps steps).indexColumn c.name := by
  rw [TableState.indexColumn, h.encryptedColumn?_applySteps hplain]
  cases h with
  | plain hplain hunindexed hclause => simp [ColumnDefinition.indexed, hplain, hunindexed] at hcolumn
  | indexed hplain hindexed hclause hstep => simpa [ColumnDefinition.indexed, hplain, hindexed] using hcolumn
  | sealed hencrypted hsealed hcounted hunique hname hloose =>
      simp [ColumnDefinition.indexed, hencrypted, hsealed] at hcolumn
  | searchable hencrypted hsearchable hcounted hname hloose hhash hhashLoose hstep =>
      simpa [ColumnDefinition.indexed, hencrypted, hsearchable, SchemaPlanner.registration] using hcolumn

/-- What is remembered once a column has been added and dropped is what was remembered before. -/
theorem foldl_dropEffects (h : Adds p table name c steps) (hplain : s.encryptedColumn? c.name = none)
    (hkept : s.softDelete ≠ some c.name) :
    ((s.applySteps steps).dropEffects c.name).foldl TableState.apply (s.applySteps steps) = s := by
  have hothers := TableState.encryptedColumn?_eq_none.mp hplain
  rw [TableState.foldl_dropEffects, h.applySteps]
  split
  · have hback : EncryptedColumn.unregister (EncryptedColumn.register s.encrypted (p.registration none c))
        c.name = s.encrypted := EncryptedColumn.unregister_register hothers
    simp [TableState.apply, hback, hkept]
  · simp [EncryptedColumn.unregister_eq_self hothers]

theorem mem_indexesAfter (h : Adds p table name c steps) {d : Dialect} {indexes : Finset TableIndex}
    {i : TableIndex} : i ∈ SchemaStep.indexesAfter d indexes steps ↔
      (∃ column ∈ c.indexed, i = .made table column c.unique) ∨ i ∈ indexes := by
  rw [h.indexesAfter]
  induction c.indexed with
  | nil => simp
  | cons column columns ih => simp [ih, or_assoc]

/-- The columns that come with an added one have identifiers for names. -/
theorem exists_names (h : Adds p table name c steps) (hplain : s.encryptedColumn? c.name = none) :
    ∃ (dropped : Identifier) (hash : Option Identifier), dropped.text = c.name ∧
      ((s.applySteps steps).encryptedColumn? c.name).bind EncryptedColumn.hashColumn =
        hash.map Identifier.text := by
  rw [h.encryptedColumn?_applySteps hplain]
  cases h with
  | @plain clause hencrypted hunindexed hclause => exact ⟨clause.name, none, hclause.name, by simp [hencrypted]⟩
  | @indexed clause index hencrypted hindexed hclause hstep =>
      exact ⟨clause.name, none, hclause.name, by simp [hencrypted]⟩
  | @sealed clause hencrypted hsealed hcounted hunique hname hloose =>
      exact ⟨clause.name, none, hname, by simp [hencrypted, SchemaPlanner.registration, hsealed]⟩
  | @searchable clause hashClause index hencrypted hsearchable hcounted hname hloose hhash hhashLoose hstep =>
      exact ⟨clause.name, some hashClause.name, hname,
        by simp [hencrypted, SchemaPlanner.registration, hsearchable, hhash]⟩

end Adds

end TableGate
