import TableGate.Proofs.Schema.ActionLists
import TableGate.Proofs.Schema.IndexedDrops

/-! # Stored tables

A table in a database, with its columns, the indexes of the database, and what is remembered about the table.
Steps are carried out one after the other until one of them is refused. A column that is added and dropped
leaves nothing behind. -/

namespace TableGate

/-- A table as a database has it, and what is remembered about it. -/
@[ext]
structure StoredTable (name : Identifier) where
  columns : Finset String
  indexes : Finset TableIndex
  state : TableState
  within : ∀ i ∈ indexes, i.table = name.text → i.column ∈ columns

namespace StoredTable

variable {d : Dialect} {altered : Identifier} {t t' : StoredTable altered}

/-- A statement is not refused for the indexes of the table or for its keys: no two indexes have the same name,
an index is on a column that is there, and SQLite neither takes a column with a key or with distinct values into
a table nor drops one that an index is on. What a database refuses for the rows of the table, or for the types
of its columns, is left aside. -/
def Admits (d : Dialect) (t : StoredTable altered) : SchemaStatement → Prop
  | .createIndex _ name table column =>
    (∀ i ∈ t.indexes, i.name ≠ name.text) ∧ (table = altered → column.text ∈ t.columns)
  | .addColumn _ clause => d = .sqlite → clause.isUnique = false
  | .dropColumn table column => d = .sqlite → (SchemaStatement.dropColumn table column).Spares t.indexes
  | _ => True

instance (d : Dialect) (t : StoredTable altered) :
    (statement : SchemaStatement) → Decidable (t.Admits d statement)
  | .createIndex _ name table column =>
    inferInstanceAs (Decidable ((∀ i ∈ t.indexes, i.name ≠ name.text) ∧
      (table = altered → column.text ∈ t.columns)))
  | .addColumn _ clause => inferInstanceAs (Decidable (d = .sqlite → clause.isUnique = false))
  | .dropColumn table column =>
    inferInstanceAs (Decidable (d = .sqlite → (SchemaStatement.dropColumn table column).Spares t.indexes))
  | .createTable .. | .dropTable _ | .modifyColumn .. | .setType .. | .setNullable .. | .setDefault .. |
    .renameColumn .. | .dropIndex _ | .createView .. | .dropView _ | .grant .. | .revoke .. =>
    inferInstanceAs (Decidable True)

/-- A statement that is not refused leaves every index of the table on a column that is there. -/
theorem within_statement {statement : SchemaStatement} {columns : Finset String}
    (hadmits : t.Admits d statement) (hcolumns : statement.columnsAfter? altered t.columns = some columns) :
    ∀ i ∈ statement.indexesAfter d t.indexes, i.table = altered.text → i.column ∈ columns := by
  intro i hi htable
  cases statement with
  | addColumn table clause =>
      have hsubset : t.columns ⊆ columns := by
        simp only [SchemaStatement.columnsAfter?] at hcolumns
        split at hcolumns
        · cases hcolumns
          exact subset_rfl
        · split at hcolumns
          · cases hcolumns
          · cases hcolumns
            exact Finset.subset_insert _ _
      exact hsubset (t.within i hi htable)
  | dropColumn table column =>
      have hoff : i ∈ t.indexes ∧ ¬ i.On table.text column.text := by
        by_cases hsqlite : d = .sqlite
        · rw [SchemaStatement.indexesAfter, if_pos hsqlite] at hi
          exact ⟨hi, hadmits hsqlite i hi⟩
        · rw [SchemaStatement.indexesAfter, if_neg hsqlite] at hi
          exact Finset.mem_filter.mp hi
      by_cases haltered : table = altered
      · subst haltered
        obtain ⟨-, rfl⟩ := SchemaStatement.columnsAfter?_dropColumn.mp hcolumns
        exact Finset.mem_erase.mpr ⟨fun hcolumn => hoff.2 ⟨htable, hcolumn⟩, t.within i hoff.1 htable⟩
      · rw [SchemaStatement.columnsAfter?, if_pos haltered] at hcolumns
        cases hcolumns
        exact t.within i hoff.1 htable
  | renameColumn table source target =>
      obtain ⟨before, hbefore, rfl⟩ := Finset.mem_image.mp hi
      by_cases hon : before.On table.text source.text
      · rw [TableIndex.renamed, if_pos hon] at htable ⊢
        obtain rfl : table = altered := Identifier.text_injective (hon.1.symm.trans htable)
        obtain rfl := SchemaStatement.columnsAfter?_renameColumn hcolumns
        exact Finset.mem_insert_self _ _
      · rw [TableIndex.renamed, if_neg hon] at htable ⊢
        have hcolumn := t.within before hbefore htable
        by_cases haltered : table = altered
        · subst haltered
          obtain rfl := SchemaStatement.columnsAfter?_renameColumn hcolumns
          refine Finset.mem_insert_of_mem (Finset.mem_erase.mpr ⟨fun heq => hon ⟨htable, heq⟩, hcolumn⟩)
        · rw [SchemaStatement.columnsAfter?, if_pos haltered] at hcolumns
          cases hcolumns
          exact hcolumn
  | createIndex unique name table column =>
      cases hcolumns
      rcases Finset.mem_insert.mp hi with rfl | hi
      · exact hadmits.2 (Identifier.text_injective htable)
      · exact t.within i hi htable
  | dropIndex name =>
      cases hcolumns
      exact t.within i (Finset.mem_of_mem_filter i hi) htable
  | createTable table clauses =>
      simp only [SchemaStatement.columnsAfter?] at hcolumns
      split at hcolumns
      · cases hcolumns
        exact t.within i hi htable
      · cases hcolumns
  | dropTable table =>
      simp only [SchemaStatement.columnsAfter?] at hcolumns
      split at hcolumns
      · cases hcolumns
        exact t.within i (Finset.mem_of_mem_filter i hi) htable
      · cases hcolumns
  | modifyColumn | setType | setNullable | setDefault | createView | dropView | grant | revoke =>
      cases hcolumns
      exact t.within i hi htable

/-- The table after a step, unless its statement is refused. -/
def after? (d : Dialect) (t : StoredTable altered) (step : SchemaStep) : Option (StoredTable altered) :=
  if hadmits : t.Admits d step.statement then
    match hcolumns : step.statement.columnsAfter? altered t.columns with
    | some columns =>
      some ⟨columns, step.statement.indexesAfter d t.indexes, step.effects.foldl TableState.apply t.state,
        within_statement hadmits hcolumns⟩
    | none => none
  else none

/-- The table after the steps up to the first that is refused, and the steps that are left. -/
def carryOut (d : Dialect) : StoredTable altered → List SchemaStep → StoredTable altered × List SchemaStep
  | t, [] => (t, [])
  | t, step :: steps =>
    match t.after? d step with
    | some next => next.carryOut d steps
    | none => (t, step :: steps)

/-! ## One step after the other -/

theorem carryOut_cons {step : SchemaStep} (h : t.after? d step = some t') (steps : List SchemaStep) :
    t.carryOut d (step :: steps) = t'.carryOut d steps := by
  rw [carryOut, h]

theorem carryOut_refused {step : SchemaStep} (h : t.after? d step = none) (steps : List SchemaStep) :
    t.carryOut d (step :: steps) = (t, step :: steps) := by
  rw [carryOut, h]

theorem carryOut_append {earlier : List SchemaStep} (h : t.carryOut d earlier = (t', []))
    (later : List SchemaStep) : t.carryOut d (earlier ++ later) = t'.carryOut d later := by
  induction earlier generalizing t with
  | nil =>
      cases h
      rfl
  | cons step earlier ih =>
      cases hstep : t.after? d step with
      | none =>
          rw [carryOut_refused hstep] at h
          cases h
      | some next =>
          rw [carryOut_cons hstep] at h
          rw [List.cons_append, carryOut_cons hstep]
          exact ih h

/-- A step is carried out if and only if its statement is not refused. -/
theorem after?_eq_some {step : SchemaStep} :
    t.after? d step = some t' ↔ t.Admits d step.statement ∧
      step.statement.columnsAfter? altered t.columns = some t'.columns ∧
      t'.indexes = step.statement.indexesAfter d t.indexes ∧
      t'.state = step.effects.foldl TableState.apply t.state := by
  unfold after?
  split
  · rename_i hadmits
    split
    · rename_i columns hcolumns
      simp only [hcolumns, Option.some.injEq, hadmits, true_and, StoredTable.ext_iff, eq_comm]
    · rename_i hnone
      simp [hnone]
  · rename_i hrefused
    simp [hrefused]

/-- The first step is carried out if it is not refused, and the others if they are from there. -/
theorem exists_carryOut_cons {step : SchemaStep} {steps : List SchemaStep} {columns : Finset String}
    (hadmits : t.Admits d step.statement)
    (hcolumns : step.statement.columnsAfter? altered t.columns = some columns)
    (hsteps : ∀ next : StoredTable altered, next.columns = columns →
      next.indexes = step.statement.indexesAfter d t.indexes →
        ∃ last, next.carryOut d steps = (last, [])) :
    ∃ last, t.carryOut d (step :: steps) = (last, []) := by
  let next : StoredTable altered := ⟨columns, step.statement.indexesAfter d t.indexes,
    step.effects.foldl TableState.apply t.state, within_statement hadmits hcolumns⟩
  have hnext : t.after? d step = some next := after?_eq_some.mpr ⟨hadmits, hcolumns, rfl, rfl⟩
  obtain ⟨last, hlast⟩ := hsteps next rfl rfl
  exact ⟨last, by rw [carryOut_cons hnext, hlast]⟩

/-- What steps make of a table is what they make of its columns, of the indexes and of what is remembered. -/
theorem eq_of_carryOut {steps : List SchemaStep} (h : t.carryOut d steps = (t', [])) :
    SchemaStep.columnsAfter? altered t.columns steps = some t'.columns ∧
      t'.indexes = SchemaStep.indexesAfter d t.indexes steps ∧ t'.state = t.state.applySteps steps := by
  induction steps generalizing t with
  | nil =>
      cases h
      exact ⟨rfl, rfl, rfl⟩
  | cons step steps ih =>
      cases hstep : t.after? d step with
      | none =>
          rw [carryOut_refused hstep] at h
          cases h
      | some next =>
          rw [carryOut_cons hstep] at h
          obtain ⟨-, hcolumns, hindexes, hstate⟩ := after?_eq_some.mp hstep
          obtain ⟨hlastColumns, hlastIndexes, hlastState⟩ := ih h
          refine ⟨?_, ?_, ?_⟩
          · rw [SchemaStep.columnsAfter?_cons, hcolumns, Option.bind_some, hlastColumns]
          · rw [hlastIndexes, hindexes, SchemaStep.indexesAfter_cons]
          · rw [hlastState, hstate, TableState.applySteps, TableState.applySteps, List.flatMap_cons,
              List.foldl_append]

/-! ## Adding a column and dropping it -/

variable {p : SchemaPlanner} {c : ColumnDefinition} {own : List SchemaStep}

/-- Neither the columns that come with an added one are there, nor an index of a name that is made for them. -/
structure Lacks (t : StoredTable altered) (c : ColumnDefinition) : Prop where
  columns : ∀ column ∈ (AlterAction.add c).given, column ∉ t.columns
  indexes : ∀ i ∈ t.indexes, ∀ column ∈ (AlterAction.add c).given, ∀ unique,
    i.name ≠ TableIndex.nameFor unique altered.text column
  encrypted : t.state.encryptedColumn? c.name = none
  softDelete : t.state.softDelete ≠ some c.name

theorem exists_carryOut_createIndex {column : String} {unique : Bool} {index : SchemaStatement}
    (h : createIndex? altered.text column unique = .ok index) (hcolumn : column ∈ t.columns)
    (hname : ∀ i ∈ t.indexes, i.name ≠ TableIndex.nameFor unique altered.text column) :
    ∃ last, t.carryOut d [⟨index, []⟩] = (last, []) := by
  obtain ⟨n, table, k, rfl, hn, -, rfl⟩ := SchemaPlanner.createIndex?_eq_ok h
  exact exists_carryOut_cons ⟨by rwa [hn], fun _ => hcolumn⟩ rfl fun next _ _ => ⟨next, rfl⟩

theorem exists_carryOut_addColumn {clause : ColumnClause} {effects : List CatalogEffect}
    {steps : List SchemaStep} (hnew : clause.name.text ∉ t.columns)
    (hfree : d = .sqlite → clause.isUnique = false)
    (hsteps : ∀ next : StoredTable altered, next.columns = insert clause.name.text t.columns →
      next.indexes = t.indexes → ∃ last, next.carryOut d steps = (last, [])) :
    ∃ last, t.carryOut d (⟨.addColumn altered clause, effects⟩ :: steps) = (last, []) :=
  exists_carryOut_cons hfree (SchemaStatement.columnsAfter?_addColumn.mpr ⟨hnew, rfl⟩) hsteps

/-- A column can be added where it is not there yet, but in SQLite not if the database counts it. -/
theorem exists_carryOut_add (h : Adds p altered.text altered c own) (hlacks : t.Lacks c)
    (hcounted : p.dialect = .sqlite → c.type.isAutoIncrement = false) :
    ∃ last, t.carryOut p.dialect own = (last, []) := by
  have hnew := hlacks.columns c.name c.name_mem_given
  cases h with
  | @plain clause hplain hunindexed hclause =>
      exact exists_carryOut_addColumn (hclause.name ▸ hnew) (fun h => hclause.isUnique.trans (hcounted h))
        fun next _ _ => ⟨next, rfl⟩
  | @indexed clause index hplain hindexed hclause hstep =>
      refine exists_carryOut_addColumn (hclause.name ▸ hnew) (fun h => hclause.isUnique.trans (hcounted h))
        fun next hcolumns hindexes => exists_carryOut_createIndex hstep ?_ fun i hi => ?_
      · rw [hcolumns, hclause.name]
        exact Finset.mem_insert_self _ _
      · rw [hindexes] at hi
        exact hlacks.indexes i hi c.name c.name_mem_given c.unique
  | @sealed clause hencrypted hsealed _ hunique hname hloose =>
      exact exists_carryOut_addColumn (hname ▸ hnew) (fun _ => hloose.isUnique) fun next _ _ => ⟨next, rfl⟩
  | @searchable clause hashClause index hencrypted hsearchable _ hname hloose hhash hhashLoose hstep =>
      have hgiven : c.hashColumn ∈ (AlterAction.add c).given := by
        simp [AlterAction.given, hencrypted, hsearchable]
      refine exists_carryOut_addColumn (hname ▸ hnew) (fun _ => hloose.isUnique)
        fun first hcolumns hindexes => ?_
      have hhashNew : hashClause.name.text ∉ first.columns := by
        rw [hcolumns, hhash, hname, Finset.mem_insert, not_or]
        exact ⟨c.hashColumn_ne_name, hlacks.columns c.hashColumn hgiven⟩
      refine exists_carryOut_addColumn hhashNew (fun _ => hhashLoose.isUnique)
        fun second hcolumns' hindexes' => exists_carryOut_createIndex hstep ?_ fun i hi => ?_
      · rw [hcolumns', hhash]
        exact Finset.mem_insert_self _ _
      · rw [hindexes', hindexes] at hi
        exact hlacks.indexes i hi c.hashColumn hgiven c.unique

/-- A column that is counted by the database cannot be added in SQLite. -/
theorem carryOut_add_refused (h : Adds p altered.text altered c own) (hsqlite : p.dialect = .sqlite)
    (hcounted : c.type.isAutoIncrement = true) (later : List SchemaStep) :
    t.carryOut p.dialect (own ++ later) = (t, own ++ later) := by
  have hrefused : ∀ (clause : ColumnClause) (effects : List CatalogEffect), c.Clause p.dialect clause →
      t.after? p.dialect ⟨.addColumn altered clause, effects⟩ = none := by
    intro clause effects hclause
    refine dif_neg fun hadmits => ?_
    have hfree : clause.isUnique = false := hadmits hsqlite
    rw [hclause.isUnique, hcounted] at hfree
    cases hfree
  cases h with
  | plain hplain hunindexed hclause => exact carryOut_refused (hrefused _ _ hclause) _
  | indexed hplain hindexed hclause hstep => exact carryOut_refused (hrefused _ _ hclause) _
  | sealed hencrypted hsealed hplainType hunique hname hloose =>
      rw [hcounted] at hplainType
      cases hplainType
  | searchable hencrypted hsearchable hplainType hname hloose hhash hhashLoose hstep =>
      rw [hcounted] at hplainType
      cases hplainType

theorem exists_carryOut_dropColumn {dropped : Identifier} {effects : List CatalogEffect}
    {steps : List SchemaStep} (hcolumn : dropped.text ∈ t.columns)
    (hfree : d = .sqlite → ∀ i ∈ t.indexes, ¬ i.On altered.text dropped.text)
    (hsteps : ∀ next : StoredTable altered, next.columns = t.columns.erase dropped.text →
      next.indexes ⊆ t.indexes → ∃ last, next.carryOut d steps = (last, [])) :
    ∃ last, t.carryOut d (⟨.dropColumn altered dropped, effects⟩ :: steps) = (last, []) := by
  refine exists_carryOut_cons hfree (SchemaStatement.columnsAfter?_dropColumn.mpr ⟨hcolumn, rfl⟩)
    fun next hcolumns hindexes => hsteps next hcolumns ?_
  rw [hindexes, SchemaStatement.indexesAfter]
  split
  · exact subset_rfl
  · exact Finset.filter_subset _ _

/-- A column can be dropped with its hash column if they are there and, in SQLite, no index is on them. -/
theorem exists_carryOut_dropColumns {dropped : Identifier} {hash : Option Identifier}
    {effects : List CatalogEffect} (hnodup : (dropped :: hash.toList).Nodup)
    (hcolumns : ∀ n ∈ dropped :: hash.toList, n.text ∈ t.columns)
    (hfree : d = .sqlite → ∀ n ∈ dropped :: hash.toList, ∀ i ∈ t.indexes, ¬ i.On altered.text n.text) :
    ∃ last, t.carryOut d (⟨.dropColumn altered dropped, effects⟩ ::
      (hash.map fun h => SchemaStep.mk (.dropColumn altered h) []).toList) = (last, []) := by
  refine exists_carryOut_dropColumn (hcolumns dropped List.mem_cons_self)
    (fun hsqlite => hfree hsqlite dropped List.mem_cons_self) fun next hnext hindexes => ?_
  cases hash with
  | none => exact ⟨next, rfl⟩
  | some h =>
      have hmem : h ∈ dropped :: (some h).toList := by simp
      have hne : h ≠ dropped := by
        rintro rfl
        simp at hnodup
      refine exists_carryOut_dropColumn ?_ (fun hsqlite i hi => hfree hsqlite h hmem i (hindexes hi))
        fun last _ _ => ⟨last, rfl⟩
      rw [hnext]
      exact Finset.mem_erase.mpr ⟨fun heq => hne (Identifier.text_injective heq), hcolumns h hmem⟩

/-- A column that is there can be dropped, also in SQLite if the indexes on it and on its hash column have the
names that are made for them. -/
theorem exists_carryOut_drop {column : String} {steps : List SchemaStep}
    (h : Drops p altered.text altered t.state column steps)
    (hnodup : (t.state.taken (.drop column)).Nodup)
    (hcolumns : ∀ taken ∈ t.state.taken (.drop column), taken ∈ t.columns)
    (hnamed : ∀ i ∈ t.indexes, i.table = altered.text → i.column ∈ t.state.taken (.drop column) →
      ∃ unique, i.name = TableIndex.nameFor unique altered.text (t.state.indexColumn column)) :
    ∃ last, t.carryOut p.dialect steps = (last, []) := by
  have htaken : ∀ (dropped : Identifier) (hash : Option Identifier), dropped.text = column →
      (t.state.encryptedColumn? column).bind EncryptedColumn.hashColumn = hash.map Identifier.text →
        t.state.taken (.drop column) = (dropped :: hash.toList).map Identifier.text := by
    rintro dropped hash rfl hhash
    rw [TableState.taken, hhash]
    cases hash <;> rfl
  cases h with
  | @sqlite plain unique dropped hash hsqlite hplain hunique hdropped hhash =>
      rw [htaken dropped hash hdropped hhash] at hnodup hcolumns hnamed
      refine exists_carryOut_cons trivial rfl fun first hfirst hfirstIndexes => ?_
      refine exists_carryOut_cons trivial rfl fun second hsecond hsecondIndexes => ?_
      refine exists_carryOut_dropColumns (hnodup.of_map _) (fun n hn => ?_) fun _ n hn i hi hon => ?_
      · rw [hsecond, hfirst]
        exact hcolumns n.text (List.mem_map_of_mem hn)
      · have hleft : second.indexes =
            (t.indexes.filter (·.name ≠ plain.text)).filter (·.name ≠ unique.text) := by
          rw [hsecondIndexes, hfirstIndexes]
          rfl
        rw [hleft, TableIndex.mem_filter_nameFor hplain hunique] at hi
        obtain ⟨isUnique, hname⟩ := hnamed i hi.1 hon.1 (hon.2 ▸ List.mem_map_of_mem hn)
        exact hi.2 isUnique hname
  | @other dropped hash hother hdropped hhash =>
      rw [htaken dropped hash hdropped hhash] at hnodup hcolumns
      exact exists_carryOut_dropColumns (hnodup.of_map _) (fun n hn => hcolumns n.text (List.mem_map_of_mem hn))
        fun hsqlite => absurd hsqlite hother

end StoredTable

namespace SchemaPlanner

open StoredTable

variable {p : SchemaPlanner} {altered : Identifier} {t : StoredTable altered} {c : ColumnDefinition}

/-- Where a column can be added, it can be added and dropped. -/
theorem exists_add_drop {added : List SchemaStep}
    (h : p.alterTable? altered.text [.add c] t.state = .ok added)
    (hplain : t.state.encryptedColumn? c.name = none) :
    ∃ own later, p.add? altered.text altered c = .ok own ∧
      p.drop? altered.text (t.state.applySteps own) altered c.name = .ok later ∧
      p.alterTable? altered.text [.add c, .drop c.name] t.state = .ok (own ++ later) := by
  obtain ⟨name, hname, hactions⟩ := alterTable?_eq_ok h
  obtain rfl : altered = name := Except.ok.inj (altered.of?_text.symm.trans hname)
  obtain ⟨own, -, hown, -, -⟩ := actions?_cons.mp hactions
  obtain ⟨dropped, hash, hdropped, hhash⟩ := (adds_of_add? hown).exists_names hplain
  rw [← hdropped] at hhash
  obtain ⟨later, hlater⟩ : ∃ later,
      p.drop? altered.text (t.state.applySteps own) altered dropped.text = .ok later := exists_drop? hhash
  rw [hdropped] at hlater
  refine ⟨own, later, hown, hlater, ?_⟩
  rw [alterTable?, if_neg (by simp), altered.of?_text]
  exact actions?_cons.mpr ⟨own, later, hown, actions?_cons.mpr ⟨later, [], hlater, rfl,
    (List.append_nil later).symm⟩, rfl⟩

/-- A column that is added and dropped leaves the table as it was. -/
theorem carryOut_add_drop {own later : List SchemaStep} (hlacks : t.Lacks c)
    (hown : p.add? altered.text altered c = .ok own)
    (hlater : p.drop? altered.text (t.state.applySteps own) altered c.name = .ok later)
    (hcounted : p.dialect = .sqlite → c.type.isAutoIncrement = false) :
    t.carryOut p.dialect (own ++ later) = (t, []) := by
  have hadds := adds_of_add? hown
  have hdrops := drops_of_drop? hlater
  have htaken := hadds.taken_drop hlacks.encrypted
  obtain ⟨between, hbetween⟩ := exists_carryOut_add hadds hlacks hcounted
  obtain ⟨hcolumns, hindexes, hstate⟩ := eq_of_carryOut hbetween
  have hthere : ∀ column, column ∈ between.columns ↔
      column ∈ (AlterAction.add c).given ∨ column ∈ t.columns := by
    intro column
    rw [(acts_add (s := t.state) hown).mem_columns_iff hcolumns]
    simp [TableState.taken]
  have hmade : ∀ i, i ∈ between.indexes ↔
      (∃ column ∈ c.indexed, i = .made altered.text column c.unique) ∨ i ∈ t.indexes := by
    intro i
    rw [hindexes, hadds.mem_indexesAfter]
  rw [← hstate] at hdrops htaken
  -- an index is on what is dropped if and only if it has been made for it
  have hlast : ∃ last, between.carryOut p.dialect later = (last, []) := by
    refine exists_carryOut_drop hdrops ?_ (fun column hcolumn => ?_) fun i hi htable hcolumn => ?_
    · rw [htaken]
      exact c.nodup_given
    · exact (hthere column).mpr (.inl (htaken ▸ hcolumn))
    · rw [htaken] at hcolumn
      rcases (hmade i).mp hi with ⟨column, hindexed, rfl⟩ | hi
      · refine ⟨c.unique, ?_⟩
        rw [hstate, ← hadds.eq_indexColumn hlacks.encrypted hindexed]
        rfl
      · exact absurd (t.within i hi htable) (hlacks.columns i.column hcolumn)
  obtain ⟨last, hlast⟩ := hlast
  obtain ⟨hlastColumns, hlastIndexes, hlastState⟩ := eq_of_carryOut hlast
  rw [carryOut_append hbetween, hlast]
  refine Prod.ext (StoredTable.ext ?_ ?_ ?_) rfl
  · ext column
    have hnew := hlacks.columns column
    have hgiven : column ∉ (AlterAction.drop c.name).given := List.not_mem_nil
    rw [(acts_drop hlater).mem_columns_iff hlastColumns, ← hstate, htaken, hthere]
    tauto
  · ext i
    have hindexColumn : between.state.indexColumn c.name ∈ (AlterAction.add c).given :=
      htaken ▸ between.state.indexColumn_mem_taken c.name
    rw [hlastIndexes, hdrops.mem_indexesAfter, hmade, htaken]
    constructor
    · rintro ⟨⟨column, hindexed, rfl⟩ | hi, hleft⟩
      · exfalso
        obtain rfl := hadds.eq_indexColumn hlacks.encrypted hindexed
        rw [← hstate] at hleft
        split at hleft
        · exact hleft c.unique rfl
        · exact hleft _ hindexColumn ⟨rfl, rfl⟩
      · exact hi
    · intro hi
      refine ⟨.inr hi, ?_⟩
      split
      · exact fun unique => hlacks.indexes i hi _ hindexColumn unique
      · exact fun column hcolumn hon => hlacks.columns column hcolumn (hon.2 ▸ t.within i hi hon.1)
  · rw [hlastState, hdrops.applySteps, hstate, hadds.foldl_dropEffects hlacks.encrypted hlacks.softDelete]

/-- A plan that adds a column and drops it leaves the table as it was, and on the way no index is on a column
that is gone. In SQLite nothing of it is done for a column that the database counts. -/
theorem alterTable?_add_drop {added : List SchemaStep}
    (h : p.alterTable? altered.text [.add c] t.state = .ok added) (hlacks : t.Lacks c) :
    ∃ steps, p.alterTable? altered.text [.add c, .drop c.name] t.state = .ok steps ∧
      t.carryOut p.dialect steps =
        (t, if p.dialect = .sqlite ∧ c.type.isAutoIncrement = true then steps else []) ∧
      ∀ k, ∀ column ∉ (t.carryOut p.dialect (steps.take k)).1.columns,
        ∀ i ∈ (t.carryOut p.dialect (steps.take k)).1.indexes, ¬ i.On altered.text column := by
  obtain ⟨own, later, hown, hlater, hsteps⟩ := exists_add_drop h hlacks.encrypted
  refine ⟨own ++ later, hsteps, ?_, fun k column hcolumn i hi hon => ?_⟩
  · split
    · rename_i hrefused
      exact carryOut_add_refused (adds_of_add? hown) hrefused.1 hrefused.2 later
    · rename_i hcounted
      exact carryOut_add_drop hlacks hown hlater fun hsqlite => by simpa [hsqlite] using hcounted
  · exact hcolumn (hon.2 ▸ StoredTable.within _ i hi hon.1)

/-- A column whose values are searched and distinct comes and goes, in a table that has an encrypted column, an
index and marked rows. -/
theorem alterTable?_add_drop_email :
    let p : SchemaPlanner := ⟨.sqlite, .guarded, .chacha20Poly1305⟩
    let users : Identifier := ⟨"users", by decide +kernel⟩
    let t : StoredTable users := ⟨{"id", "name", "name_hash", "deleted_at"}, {.made "users" "name_hash" false},
      ⟨[.searchable "name"], some "deleted_at"⟩, by decide +kernel⟩
    let c : ColumnDefinition := { name := "email", type := .string, unique := true, encrypted := true }
    (∃ added, p.alterTable? "users" [.add c] t.state = .ok added) ∧ t.Lacks c ∧
      ∃ steps, p.alterTable? "users" [.add c, .drop "email"] t.state = .ok steps ∧
        t.carryOut .sqlite steps = (t, []) := by
  intro p users t c
  have hadded : ∃ added, p.alterTable? users.text [.add c] t.state = .ok added :=
    Except.exists_of_isOk (by decide +kernel)
  have hlacks : t.Lacks c :=
    ⟨by decide +kernel, by decide +kernel, by decide +kernel, by decide +kernel⟩
  refine ⟨hadded, hlacks, ?_⟩
  obtain ⟨added, hadded⟩ := hadded
  obtain ⟨steps, hsteps, hcarried, -⟩ := alterTable?_add_drop hadded hlacks
  exact ⟨steps, hsteps, hcarried⟩

end SchemaPlanner

end TableGate
