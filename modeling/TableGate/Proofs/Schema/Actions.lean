import Mathlib.Data.Finset.Insert
import Mathlib.Data.Finset.Erase
import TableGate.Proofs.Failure
import TableGate.Proofs.Sql.Column
import TableGate.Schema.Plan

/-! # Planned actions

A table is the set of its columns: a statement adds one, drops one or gives one another name, and is refused
where that cannot be done. What the steps of an action do to the columns, and to what is remembered about
them, is read off the action. -/

namespace TableGate

/-- The columns of a table after a statement, unless the statement is refused or no table is left. What is
renamed to the name that it has stays as it is. -/
def SchemaStatement.columnsAfter? (altered : Identifier) (columns : Finset String) :
    SchemaStatement → Option (Finset String)
  | .addColumn table column =>
    if table ≠ altered then some columns
    else if column.name.text ∈ columns then none
    else some (insert column.name.text columns)
  | .dropColumn table column =>
    if table ≠ altered then some columns
    else if column.text ∈ columns then some (columns.erase column.text)
    else none
  | .renameColumn table source target =>
    if table ≠ altered then some columns
    else if source.text ∈ columns ∧ (target.text ∈ columns → target = source) then
      some (insert target.text (columns.erase source.text))
    else none
  | .createTable table _ => if table ≠ altered then some columns else none
  | .dropTable table => if table ≠ altered then some columns else none
  | _ => some columns

/-- The columns of a table after steps, none of which is refused. -/
def SchemaStep.columnsAfter? (altered : Identifier) (columns : Finset String)
    (steps : List SchemaStep) : Option (Finset String) :=
  steps.foldlM (fun columns step => step.statement.columnsAfter? altered columns) columns

/-- The columns that an action brings into a table. -/
def AlterAction.given : AlterAction → List String
  | .add c => if c.encrypted && c.isSearchable then [c.name, c.hashColumn] else [c.name]
  | .modify _ => []
  | .drop _ => []
  | .rename _ target => [target]

namespace TableState

/-- The columns that an action takes out of a table, about which this is remembered. -/
def taken (s : TableState) : AlterAction → List String
  | .add _ => []
  | .modify _ => []
  | .drop column => column :: ((s.encryptedColumn? column).bind EncryptedColumn.hashColumn).toList
  | .rename source target => if source = target then [] else [source]

/-- An action does not take out what it brings. -/
theorem notMem_taken_of_mem_given (s : TableState) {a : AlterAction} {column : String}
    (h : column ∈ a.given) : column ∉ s.taken a := by
  cases a with
  | add c => simp [taken]
  | modify c => simp [taken]
  | drop name => simp [AlterAction.given] at h
  | rename source target =>
      rw [AlterAction.given, List.mem_singleton] at h
      subst h
      rw [taken]
      split
      · exact List.not_mem_nil
      · rename_i hne
        exact fun hmem => hne (List.mem_singleton.mp hmem).symm

/-- What dropping a column changes in what is remembered. -/
def dropEffects (s : TableState) (column : String) : List CatalogEffect :=
  (if (s.encryptedColumn? column).isSome then [.unregisterEncrypted column] else []) ++
    (if s.softDelete = some column then [.disableSoftDelete] else [])

end TableState

/-! ## The steps of an action -/

/-- The step changes neither the columns of a table nor what is remembered about one. -/
structure SchemaStep.Idle (step : SchemaStep) : Prop where
  effects : step.effects = []
  columns : ∀ altered columns, step.statement.columnsAfter? altered columns = some columns

/-- The steps of an action on a table about which a state is remembered. A column that is registered has
all its columns by then, and the columns of one that is dropped go after it. -/
inductive Acts (name : Identifier) (s : TableState) : AlterAction → List SchemaStep → Prop
  | add {c : ColumnDefinition} {clause : ColumnClause} {idle : List SchemaStep}
      (hplain : c.encrypted = false) (hname : clause.name.text = c.name)
      (hidle : ∀ step ∈ idle, step.Idle) :
      Acts name s (.add c) (⟨.addColumn name clause, []⟩ :: idle)
  | addSealed {c : ColumnDefinition} {clause : ColumnClause} {e : EncryptedColumn}
      (hsealed : c.isSearchable = false) (hname : clause.name.text = c.name)
      (hcolumn : e.column = c.name) (hhash : e.hashColumn = none) :
      Acts name s (.add c) [⟨.addColumn name clause, [.registerEncrypted e]⟩]
  | addSearchable {c : ColumnDefinition} {clause hashClause : ColumnClause} {e : EncryptedColumn}
      {index : SchemaStep} (hencrypted : c.encrypted = true) (hsearchable : c.isSearchable = true)
      (hname : clause.name.text = c.name) (hhashName : hashClause.name.text = c.hashColumn)
      (hcolumn : e.column = c.name) (hhash : e.hashColumn = some c.hashColumn) (hindex : index.Idle) :
      Acts name s (.add c) [⟨.addColumn name clause, []⟩,
        ⟨.addColumn name hashClause, [.registerEncrypted e]⟩, index]
  | modify {c : ColumnDefinition} {idle : List SchemaStep} (hidle : ∀ step ∈ idle, step.Idle) :
      Acts name s (.modify c) idle
  | drop {dropped : Identifier} {idle : List SchemaStep} {hash : Option Identifier}
      (hhash : (s.encryptedColumn? dropped.text).bind EncryptedColumn.hashColumn =
        hash.map Identifier.text) (hidle : ∀ step ∈ idle, step.Idle) :
      Acts name s (.drop dropped.text) (idle ++
        ⟨.dropColumn name dropped, s.dropEffects dropped.text⟩ ::
          (hash.map fun h => SchemaStep.mk (.dropColumn name h) []).toList)
  | rename {source target : Identifier} (hplain : s.encryptedColumn? source.text = none) :
      Acts name s (.rename source.text target.text)
        [⟨.renameColumn name source target, [.renameColumn source.text target.text]⟩]

namespace SchemaPlanner

variable {p : SchemaPlanner} {table : String} {name : Identifier} {s : TableState}
  {c : ColumnDefinition} {steps : List SchemaStep}

theorem name_of_clause? {d : Dialect} {clause : ColumnClause} (h : c.clause? d = .ok clause) :
    clause.name.text = c.name := by
  simp only [ColumnDefinition.clause?, Except.bind_eq_ok] at h
  obtain ⟨n, hn, h⟩ := h
  have hnamed : clause.name = n := by
    split at h
    · simp only [Except.bind_eq_ok, Except.pure_eq_ok] at h
      obtain ⟨_, _, rfl⟩ := h
      rfl
    · split at h <;> simp only [Except.bind_eq_ok, Except.pure_eq_ok] at h
      · obtain ⟨_, _, _, _, rfl⟩ := h
        rfl
      · obtain ⟨_, _, rfl⟩ := h
        rfl
  exact hnamed ▸ Identifier.of?_eq_ok hn

theorem name_of_encryptedClause? {clause : ColumnClause} (h : c.encryptedClause? = .ok clause) :
    clause.name.text = c.name := by
  simp only [ColumnDefinition.encryptedClause?, Except.bind_eq_ok, Except.pure_eq_ok] at h
  obtain ⟨n, hn, rfl⟩ := h
  exact Identifier.of?_eq_ok hn

theorem name_of_hash? {column : String} {clause : ColumnClause} (h : ColumnClause.hash? column = .ok clause) :
    clause.name.text = column := by
  simp only [ColumnClause.hash?, Except.bind_eq_ok, Except.pure_eq_ok] at h
  obtain ⟨n, hn, rfl⟩ := h
  exact Identifier.of?_eq_ok hn

theorem idle_createIndex? {column : String} {unique : Bool} {index : SchemaStatement}
    (h : createIndex? table column unique = .ok index) : (SchemaStep.mk index []).Idle := by
  simp only [createIndex?, Except.bind_eq_ok, Except.pure_eq_ok] at h
  obtain ⟨_, _, _, _, _, _, rfl⟩ := h
  exact ⟨rfl, fun _ _ => rfl⟩

theorem eq_of_encryptedColumn? {encryption : Option TableEncryption} {e : EncryptedColumn}
    (h : p.encryptedColumn? c encryption = .ok e) :
    e.column = c.name ∧ e.hashColumn = if c.isSearchable then some c.hashColumn else none := by
  unfold encryptedColumn? at h
  split at h
  · cases h
  · split at h
    · cases h
    · split at h
      · cases h
      · cases h
        exact ⟨rfl, rfl⟩

theorem acts_add (h : p.add? table name c = .ok steps) : Acts name s (.add c) steps := by
  unfold add? at h
  split at h
  · rename_i hencrypted
    simp only [Except.bind_eq_ok] at h
    obtain ⟨e, he, clause, hclause, h⟩ := h
    obtain ⟨hcolumn, hhash⟩ := eq_of_encryptedColumn? he
    have hname := name_of_encryptedClause? hclause
    cases hsearchable : c.isSearchable with
    | false =>
        simp only [hsearchable, Bool.false_eq_true, if_false] at hhash
        simp only [hhash, Except.pure_eq_ok] at h
        subst h
        exact .addSealed hsearchable hname hcolumn hhash
    | true =>
        simp only [hsearchable, if_true] at hhash
        simp only [hhash, Except.bind_eq_ok, Except.pure_eq_ok] at h
        obtain ⟨hashClause, hhashClause, index, hindex, rfl⟩ := h
        exact .addSearchable hencrypted hsearchable hname (name_of_hash? hhashClause) hcolumn hhash
          (idle_createIndex? hindex)
  · rename_i hplain
    simp only [Except.bind_eq_ok] at h
    obtain ⟨clause, hclause, h⟩ := h
    have hname := name_of_clause? hclause
    rw [Bool.not_eq_true] at hplain
    split at h
    · simp only [Except.bind_eq_ok, Except.pure_eq_ok] at h
      obtain ⟨index, hindex, rfl⟩ := h
      exact .add hplain hname (List.forall_mem_singleton.mpr (idle_createIndex? hindex))
    · cases h
      exact .add hplain hname (by simp)

theorem acts_modify (h : p.modify? s name c = .ok steps) : Acts name s (.modify c) steps := by
  refine .modify fun step hstep => ?_
  unfold modify? at h
  split at h
  · cases h
  · split at h
    · cases h
    · simp only [Except.bind_eq_ok, Except.pure_eq_ok] at h
      obtain ⟨clause, _, rfl⟩ := h
      rw [List.mem_singleton.mp hstep]
      exact ⟨rfl, fun _ _ => rfl⟩
    · split at h
      · cases h
      · simp only [Except.bind_eq_ok] at h
        obtain ⟨column, _, h⟩ := h
        split at h <;> simp only [Except.bind_eq_ok, Except.pure_eq_ok] at h
        · obtain ⟨_, _, _, rfl, rfl⟩ := h
          simp only [List.cons_append, List.nil_append, List.mem_cons, List.not_mem_nil,
            or_false] at hstep
          rcases hstep with rfl | rfl | rfl <;> exact ⟨rfl, fun _ _ => rfl⟩
        · obtain ⟨_, rfl, rfl⟩ := h
          rw [List.append_nil] at hstep
          rcases List.mem_pair.mp hstep with rfl | rfl <;> exact ⟨rfl, fun _ _ => rfl⟩

theorem idle_dropIndexes? {column : String} (h : p.dropIndexes? table column = .ok steps) :
    ∀ step ∈ steps, step.Idle := by
  unfold dropIndexes? at h
  split at h
  · simp only [Except.bind_eq_ok, Except.pure_eq_ok] at h
    obtain ⟨plain, _, unique, _, rfl⟩ := h
    intro step hstep
    rcases List.mem_pair.mp hstep with rfl | rfl <;> exact ⟨rfl, fun _ _ => rfl⟩
  · cases h
    simp

theorem acts_drop {column : String} (h : p.drop? table s name column = .ok steps) :
    Acts name s (.drop column) steps := by
  simp only [drop?, Except.bind_eq_ok] at h
  obtain ⟨indexes, hindexes, dropped, hdropped, h⟩ := h
  obtain rfl := Identifier.of?_eq_ok hdropped
  have hidle := idle_dropIndexes? hindexes
  split at h <;> rename_i hhash <;> simp only [Except.bind_eq_ok, Except.pure_eq_ok] at h
  · obtain ⟨n, hn, _, rfl, rfl⟩ := h
    obtain rfl := Identifier.of?_eq_ok hn
    have hnamed : (s.encryptedColumn? dropped.text).bind EncryptedColumn.hashColumn =
        (some n).map Identifier.text := hhash
    exact .drop hnamed hidle
  · obtain ⟨_, rfl, rfl⟩ := h
    have hnone : (s.encryptedColumn? dropped.text).bind EncryptedColumn.hashColumn =
        (none : Option Identifier).map Identifier.text := hhash
    exact .drop hnone hidle

theorem acts_rename {source target : String} (h : rename? s name source target = .ok steps) :
    Acts name s (.rename source target) steps := by
  unfold rename? at h
  split at h
  · cases h
  · rename_i hplain
    simp only [Except.bind_eq_ok, Except.pure_eq_ok] at h
    obtain ⟨from', hfrom, to', hto, rfl⟩ := h
    obtain rfl := Identifier.of?_eq_ok hfrom
    obtain rfl := Identifier.of?_eq_ok hto
    exact .rename (by simpa using hplain)

/-- Everything that a planned action does. -/
theorem acts_of_action? {a : AlterAction} (h : p.action? table name s a = .ok steps) :
    Acts name s a steps := by
  cases a with
  | add c => exact acts_add h
  | modify c => exact acts_modify h
  | drop column => exact acts_drop h
  | rename source target => exact acts_rename h

end SchemaPlanner

/-! ## What an action does to the columns -/

namespace SchemaStatement

variable {altered : Identifier} {columns columns' : Finset String}

theorem columnsAfter?_addColumn {clause : ColumnClause} :
    (addColumn altered clause).columnsAfter? altered columns = some columns' ↔
      clause.name.text ∉ columns ∧ columns' = insert clause.name.text columns := by
  by_cases h : clause.name.text ∈ columns <;> simp [columnsAfter?, h, eq_comm]

theorem columnsAfter?_dropColumn {column : Identifier} :
    (dropColumn altered column).columnsAfter? altered columns = some columns' ↔
      column.text ∈ columns ∧ columns' = columns.erase column.text := by
  by_cases h : column.text ∈ columns <;> simp [columnsAfter?, h, eq_comm]

theorem columnsAfter?_renameColumn {source target : Identifier}
    (h : (renameColumn altered source target).columnsAfter? altered columns = some columns') :
    columns' = insert target.text (columns.erase source.text) := by
  simp only [columnsAfter?, ne_eq, not_true_eq_false, if_false] at h
  split at h
  · exact (Option.some.inj h).symm
  · cases h

end SchemaStatement

namespace SchemaStep

@[simp] theorem columnsAfter?_nil (altered : Identifier) (columns : Finset String) :
    columnsAfter? altered columns [] = some columns :=
  rfl

@[simp] theorem columnsAfter?_cons (altered : Identifier) (columns : Finset String) (step : SchemaStep)
    (steps : List SchemaStep) :
    columnsAfter? altered columns (step :: steps) =
      (step.statement.columnsAfter? altered columns).bind fun columns =>
        columnsAfter? altered columns steps :=
  rfl

theorem columnsAfter?_append (altered : Identifier) (columns : Finset String)
    (steps more : List SchemaStep) :
    columnsAfter? altered columns (steps ++ more) =
      (columnsAfter? altered columns steps).bind fun columns => columnsAfter? altered columns more :=
  List.foldlM_append

theorem columnsAfter?_of_idle {steps : List SchemaStep} (h : ∀ step ∈ steps, step.Idle)
    (altered : Identifier) (columns : Finset String) :
    columnsAfter? altered columns steps = some columns := by
  induction steps with
  | nil => rfl
  | cons step steps ih =>
      obtain ⟨hstep, hsteps⟩ := List.forall_mem_cons.mp h
      rw [columnsAfter?_cons, hstep.columns, Option.bind_some, ih hsteps]

theorem flatMap_effects_of_idle {steps : List SchemaStep} (h : ∀ step ∈ steps, step.Idle) :
    steps.flatMap effects = [] :=
  List.flatMap_eq_nil_iff.mpr fun step hstep => (h step hstep).effects

end SchemaStep

namespace Acts

variable {name : Identifier} {s : TableState} {a : AlterAction} {steps : List SchemaStep}

/-- Afterwards the columns are those that the action brings, and those of before that it does not take
out. -/
theorem mem_columns_iff (h : Acts name s a steps) {columns columns' : Finset String}
    (hcolumns : SchemaStep.columnsAfter? name columns steps = some columns') (column : String) :
    column ∈ columns' ↔ column ∈ a.given ∨ column ∈ columns ∧ column ∉ s.taken a := by
  cases h with
  | add hplain hname hidle =>
      simp only [SchemaStep.columnsAfter?_cons, Option.bind_eq_some_iff,
        SchemaStatement.columnsAfter?_addColumn, SchemaStep.columnsAfter?_of_idle hidle] at hcolumns
      obtain ⟨_, ⟨-, rfl⟩, ⟨⟩⟩ := hcolumns
      simp [AlterAction.given, TableState.taken, hplain, hname]
  | addSealed hsealed hname hcolumn hhash =>
      simp only [SchemaStep.columnsAfter?_cons, Option.bind_eq_some_iff,
        SchemaStatement.columnsAfter?_addColumn, SchemaStep.columnsAfter?_nil] at hcolumns
      obtain ⟨_, ⟨-, rfl⟩, ⟨⟩⟩ := hcolumns
      simp [AlterAction.given, TableState.taken, hsealed, hname]
  | addSearchable hencrypted hsearchable hname hhashName hcolumn hhash hindex =>
      simp only [SchemaStep.columnsAfter?_cons, Option.bind_eq_some_iff,
        SchemaStatement.columnsAfter?_addColumn, hindex.columns, SchemaStep.columnsAfter?_nil] at hcolumns
      obtain ⟨_, ⟨-, rfl⟩, _, ⟨-, rfl⟩, _, ⟨⟩, ⟨⟩⟩ := hcolumns
      simp [AlterAction.given, TableState.taken, hencrypted, hsearchable, hname, hhashName, or_assoc,
        or_left_comm]
  | modify hidle =>
      rw [SchemaStep.columnsAfter?_of_idle hidle] at hcolumns
      cases hcolumns
      simp [AlterAction.given, TableState.taken]
  | @drop dropped idle hash hhash hidle =>
      simp only [SchemaStep.columnsAfter?_append, SchemaStep.columnsAfter?_of_idle hidle,
        Option.bind_some, SchemaStep.columnsAfter?_cons, Option.bind_eq_some_iff,
        SchemaStatement.columnsAfter?_dropColumn] at hcolumns
      obtain ⟨_, ⟨-, rfl⟩, hcolumns⟩ := hcolumns
      simp only [AlterAction.given, TableState.taken, hhash, List.not_mem_nil, false_or]
      cases hash with
      | none =>
          cases hcolumns
          simp [and_comm]
      | some h =>
          simp only [Option.map_some, Option.toList_some, SchemaStep.columnsAfter?_cons,
            Option.bind_eq_some_iff, SchemaStatement.columnsAfter?_dropColumn,
            SchemaStep.columnsAfter?_nil] at hcolumns
          obtain ⟨_, ⟨-, rfl⟩, ⟨⟩⟩ := hcolumns
          simp only [Finset.mem_erase, Option.map_some, Option.toList_some, List.mem_cons,
            List.not_mem_nil, or_false, not_or]
          tauto
  | @rename source target hplain =>
      simp only [SchemaStep.columnsAfter?_cons, Option.bind_eq_some_iff,
        SchemaStep.columnsAfter?_nil] at hcolumns
      obtain ⟨_, hcolumns, ⟨⟩⟩ := hcolumns
      obtain rfl := SchemaStatement.columnsAfter?_renameColumn hcolumns
      simp only [AlterAction.given, TableState.taken, Finset.mem_insert, Finset.mem_erase,
        List.mem_singleton]
      split
      · rename_i hsame
        rw [hsame]
        by_cases hcolumn : column = target.text <;> simp [hcolumn]
      · simp [and_comm]

end Acts

end TableGate
