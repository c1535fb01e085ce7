import TableGate.Proofs.Schema.ActionLists
import TableGate.Proofs.Schema.AddedColumns

/-! # Dropping columns that have indexes

SQLite refuses to drop a column that an index is on, so the indexes are dropped before, by the names that they
have if they were made for the column as it is called now. An index that was made before its column got another
name is not found in this way. -/

namespace TableGate

/-! ## Drops that are refused -/

/-- A statement does not drop a column that an index is on. -/
def SchemaStatement.Spares (indexes : Finset TableIndex) : SchemaStatement → Prop
  | .dropColumn table column => ∀ i ∈ indexes, ¬ i.On table.text column.text
  | _ => True

instance (indexes : Finset TableIndex) : (statement : SchemaStatement) → Decidable (statement.Spares indexes)
  | .dropColumn table column =>
    inferInstanceAs (Decidable (∀ i ∈ indexes, ¬ i.On table.text column.text))
  | .createTable .. | .dropTable _ | .addColumn .. | .modifyColumn .. | .setType .. | .setNullable .. |
    .setDefault .. | .renameColumn .. | .createIndex .. | .dropIndex _ | .createView .. | .dropView _ |
    .grant .. | .revoke .. => inferInstanceAs (Decidable True)

namespace SchemaStep

/-- No step drops a column that an index is on by then. -/
def DropsFree (d : Dialect) (indexes : Finset TableIndex) (steps : List SchemaStep) : Prop :=
  ∀ earlier step later, steps = earlier ++ step :: later →
    step.statement.Spares (indexesAfter d indexes earlier)

variable {d : Dialect} {indexes : Finset TableIndex}

@[simp] theorem dropsFree_nil : DropsFree d indexes [] := by
  intro earlier step later h
  simp at h

@[simp] theorem dropsFree_cons {step : SchemaStep} {steps : List SchemaStep} :
    DropsFree d indexes (step :: steps) ↔
      step.statement.Spares indexes ∧ DropsFree d (step.statement.indexesAfter d indexes) steps := by
  constructor
  · intro h
    refine ⟨h [] step steps rfl, fun earlier next later hsteps => ?_⟩
    exact h (step :: earlier) next later (by rw [hsteps]; rfl)
  · rintro ⟨hstep, hsteps⟩ earlier next later hsplit
    cases earlier with
    | nil =>
        obtain ⟨rfl, -⟩ := List.cons.inj hsplit
        exact hstep
    | cons first earlier =>
        obtain ⟨rfl, hrest⟩ := List.cons.inj hsplit
        exact hsteps earlier next later hrest

theorem dropsFree_append {earlier later : List SchemaStep} :
    DropsFree d indexes (earlier ++ later) ↔
      DropsFree d indexes earlier ∧ DropsFree d (indexesAfter d indexes earlier) later := by
  induction earlier generalizing indexes with
  | nil => simp
  | cons step earlier ih => simp [ih, and_assoc]

instance decidableDropsFree (d : Dialect) (indexes : Finset TableIndex) :
    (steps : List SchemaStep) → Decidable (DropsFree d indexes steps)
  | [] => .isTrue dropsFree_nil
  | step :: steps =>
    have := decidableDropsFree d (step.statement.indexesAfter d indexes) steps
    decidable_of_iff _ dropsFree_cons.symm

end SchemaStep

/-! ## Indexes through a list of actions -/

/-- The columns that an action makes indexes on. -/
def AlterAction.indexed : AlterAction → List String
  | .add c => c.indexed
  | _ => []

/-- What a column is called after an action. -/
def AlterAction.follow (column : String) : AlterAction → String
  | .rename source target => if column = source then target else column
  | _ => column

namespace TableState

/-- The columns that an action drops. -/
def dropped (s : TableState) : AlterAction → List String
  | .drop column => column :: ((s.encryptedColumn? column).bind EncryptedColumn.hashColumn).toList
  | _ => []

/-- The column whose indexes an action drops by their names. -/
def freed (s : TableState) : AlterAction → Option String
  | .drop column => some (s.indexColumn column)
  | _ => none

end TableState

namespace SchemaPlanner

variable (p : SchemaPlanner) (table : String) (name : Identifier)

/-- What an action leaves behind, if it can be planned, has a property. -/
def Leaves (s : TableState) (a : AlterAction) (P : TableState → Prop) : Prop :=
  match p.action? table name s a with
  | .ok own => P (s.applySteps own)
  | .error _ => True

instance (s : TableState) (a : AlterAction) (P : TableState → Prop) [∀ s, Decidable (P s)] :
    Decidable (p.Leaves table name s a P) :=
  match h : p.action? table name s a with
  | .ok own => decidable_of_iff (P (s.applySteps own)) (by rw [Leaves, h])
  | .error _ => .isTrue (by rw [Leaves, h]; trivial)

/-- Actions drop an index that was made for one column by its name, or do not drop the column that it is on. -/
def Releases (origin : String) : String → TableState → List AlterAction → Prop
  | _, _, [] => True
  | column, s, a :: rest =>
    s.freed a = some origin ∨ column ∉ s.dropped a ∧
      p.Leaves table name s a fun s => Releases origin (a.follow column) s rest

/-- Every index that one of the actions makes is dropped by its name, or its column is not dropped. -/
def ReleasesMade : TableState → List AlterAction → Prop
  | _, [] => True
  | s, a :: rest =>
    p.Leaves table name s a fun s =>
      (∀ column ∈ a.indexed, p.Releases table name column column s rest) ∧ ReleasesMade s rest

instance decidableReleases (origin column : String) (s : TableState) :
    (actions : List AlterAction) → Decidable (p.Releases table name origin column s actions)
  | [] => inferInstanceAs (Decidable True)
  | a :: rest =>
    have (s : TableState) : Decidable (p.Releases table name origin (a.follow column) s rest) :=
      decidableReleases origin (a.follow column) s rest
    inferInstanceAs (Decidable (_ ∨ _ ∧ _))

instance decidableReleasesMade (s : TableState) :
    (actions : List AlterAction) → Decidable (p.ReleasesMade table name s actions)
  | [] => inferInstanceAs (Decidable True)
  | a :: rest =>
    have (s : TableState) : Decidable (p.ReleasesMade table name s rest) := decidableReleasesMade s rest
    inferInstanceAs (Decidable (p.Leaves table name s a fun s =>
      (∀ column ∈ a.indexed, p.Releases table name column column s rest) ∧
        p.ReleasesMade table name s rest))

variable {p table name}

theorem leaves_of_ok {s : TableState} {a : AlterAction} {own : List SchemaStep}
    (h : p.action? table name s a = .ok own) {P : TableState → Prop} :
    p.Leaves table name s a P ↔ P (s.applySteps own) := by
  rw [Leaves, h]

end SchemaPlanner

/-! ## What one action does to the indexes of a table -/

namespace TableIndex

/-- Every index was made for a column of the table, and a relation holds between that one and the column it is
on by now. -/
def All (table : String) (indexes : Finset TableIndex) (P : String → String → Prop) : Prop :=
  ∀ i ∈ indexes, ∃ origin column unique, i = moved table origin column unique ∧ P origin column

variable {table : String} {indexes : Finset TableIndex} {P Q : String → String → Prop}

theorem all_empty : All table ∅ P := by
  simp [All]

theorem all_imp (h : All table indexes P) (hPQ : ∀ origin column, P origin column → Q origin column) :
    All table indexes Q := by
  intro i hi
  obtain ⟨origin, column, unique, rfl, hP⟩ := h i hi
  exact ⟨origin, column, unique, rfl, hPQ origin column hP⟩

theorem all_and :
    All table indexes (fun origin column => P origin column ∧ Q origin column) ↔
      All table indexes P ∧ All table indexes Q := by
  constructor
  · exact fun h => ⟨all_imp h fun _ _ => And.left, all_imp h fun _ _ => And.right⟩
  · rintro ⟨hP, hQ⟩ i hi
    obtain ⟨origin, column, unique, rfl, hp⟩ := hP i hi
    obtain ⟨origin', column', unique', heq, hq⟩ := hQ _ hi
    obtain ⟨rfl, rfl, -⟩ := moved_inj.mp heq
    exact ⟨origin, column, unique, rfl, hp, hq⟩

/-- A relation holds of an index if and only if it holds of the columns that the index is given by. -/
theorem all_iff (h : All table indexes fun _ _ => True) :
    All table indexes P ↔
      ∀ origin column unique, moved table origin column unique ∈ indexes → P origin column := by
  constructor
  · intro hP origin column unique hmem
    obtain ⟨origin', column', unique', heq, hp⟩ := hP _ hmem
    obtain ⟨rfl, rfl, -⟩ := moved_inj.mp heq
    exact hp
  · intro hP i hi
    obtain ⟨origin, column, unique, rfl, -⟩ := h i hi
    exact ⟨origin, column, unique, rfl, hP origin column unique hi⟩

theorem all_insert_made {column : String} {unique : Bool} :
    All table (insert (made table column unique) indexes) P ↔ P column column ∧ All table indexes P := by
  constructor
  · intro h
    obtain ⟨origin, column', unique', heq, hp⟩ := h _ (Finset.mem_insert_self _ _)
    obtain ⟨rfl, rfl, -⟩ := moved_inj.mp heq
    exact ⟨hp, fun i hi => h i (Finset.mem_insert_of_mem hi)⟩
  · rintro ⟨hp, h⟩ i hi
    rcases Finset.mem_insert.mp hi with rfl | hi
    · exact ⟨column, column, unique, rfl, hp⟩
    · exact h i hi

/-- Once indexes are dropped by the two names for a column, what is left was made for other columns. -/
theorem all_filter_nameFor {plain unique : Identifier} {freed : String}
    (hplain : plain.text = nameFor false table freed) (hunique : unique.text = nameFor true table freed)
    (hindexes : All table indexes fun _ _ => True) :
    All table ((indexes.filter (·.name ≠ plain.text)).filter (·.name ≠ unique.text)) P ↔
      All table indexes fun origin column => freed = origin ∨ P origin column := by
  have hleft : All table ((indexes.filter (·.name ≠ plain.text)).filter (·.name ≠ unique.text))
      fun _ _ => True :=
    fun i hi => hindexes i (Finset.mem_of_mem_filter i (Finset.mem_of_mem_filter i hi))
  rw [all_iff hindexes, all_iff hleft]
  refine forall₃_congr fun origin column isUnique => ?_
  have hname : (moved table origin column isUnique).name = nameFor isUnique table origin := rfl
  have hkept : (∀ other, nameFor isUnique table origin ≠ nameFor other table freed) ↔ freed ≠ origin := by
    simp only [ne_eq, nameFor_inj]
    cases isUnique <;> simp [eq_comm]
  rw [mem_filter_nameFor hplain hunique, hname, hkept]
  tauto

end TableIndex

/-- What the steps of an action do in SQLite to indexes of the table, each of which was made for one column and
is on another by now. -/
structure SchemaStep.Handles (table : String) (s : TableState) (a : AlterAction)
    (indexes : Finset TableIndex) (own : List SchemaStep) : Prop where
  drops : DropsFree .sqlite indexes own ↔
    TableIndex.All table indexes fun origin column => s.freed a = some origin ∨ column ∉ s.dropped a
  after : ∀ P : String → String → Prop, TableIndex.All table (indexesAfter .sqlite indexes own) P ↔
    (TableIndex.All table indexes fun origin column => s.freed a = some origin ∨ P origin (a.follow column)) ∧
      ∀ column ∈ a.indexed, P column column

namespace SchemaPlanner

variable {p : SchemaPlanner} {table : String} {name : Identifier} {s : TableState}
  {own : List SchemaStep} {indexes : Finset TableIndex}

open SchemaStep TableIndex

theorem dropsFree_of_adds {c : ColumnDefinition} (h : Adds p table name c own) :
    DropsFree .sqlite indexes own := by
  have hindex : ∀ {column : String} {index : SchemaStatement} {indexes : Finset TableIndex},
      createIndex? table column c.unique = .ok index → index.Spares indexes := by
    intro column index indexes hindex
    obtain ⟨n, t, k, rfl, -⟩ := createIndex?_eq_ok hindex
    trivial
  cases h with
  | plain hplain hunindexed hclause => simp [SchemaStatement.Spares]
  | indexed hplain hindexed hclause hstep =>
      exact dropsFree_cons.mpr ⟨trivial, dropsFree_cons.mpr ⟨hindex hstep, dropsFree_nil⟩⟩
  | sealed hencrypted hsealed hcounted hunique hname hloose => simp [SchemaStatement.Spares]
  | searchable hencrypted hsearchable hcounted hname hloose hhash hhashLoose hstep =>
      exact dropsFree_cons.mpr ⟨trivial, dropsFree_cons.mpr ⟨trivial,
        dropsFree_cons.mpr ⟨hindex hstep, dropsFree_nil⟩⟩⟩

/-- Indexes are added to those that there are. -/
theorem handles_add {c : ColumnDefinition} (h : p.add? table name c = .ok own)
    (hindexes : All table indexes fun _ _ => True) : Handles table s (.add c) indexes own := by
  have hadds := adds_of_add? h
  refine ⟨iff_of_true (dropsFree_of_adds hadds) ?_, fun P => ?_⟩
  · exact all_imp hindexes fun _ _ _ => .inr List.not_mem_nil
  · have hsame : (All table indexes fun origin column =>
        s.freed (.add c) = some origin ∨ P origin ((AlterAction.add c).follow column)) ↔
          All table indexes P := by
      simp [TableState.freed, AlterAction.follow]
    rw [hadds.indexesAfter, hsame, AlterAction.indexed]
    induction c.indexed with
    | nil => simp
    | cons column columns ih =>
        simp only [List.foldr_cons, all_insert_made, ih, List.forall_mem_cons]
        tauto

/-- A column can be dropped if and only if it is none of those that the indexes of the table are on by now. -/
theorem spares_dropColumn_iff {dropped : Identifier} (hname : name.text = table)
    (hindexes : All table indexes fun _ _ => True) :
    (SchemaStatement.dropColumn name dropped).Spares indexes ↔
      All table indexes fun _ column => dropped.text ≠ column := by
  rw [all_iff hindexes, SchemaStatement.Spares, hname]
  constructor
  · intro hon origin column unique hi heq
    exact hon _ hi (on_moved.mpr heq.symm)
  · intro hne i hi hon
    obtain ⟨origin, column, unique, rfl, -⟩ := hindexes i hi
    exact hne origin column unique hi (on_moved.mp hon).symm

/-- Both indexes that may have been made for the dropped column, or for its hash column, are dropped first. -/
theorem handles_drop {column : String} (hsqlite : p.dialect = .sqlite) (hname : name.text = table)
    (h : p.drop? table s name column = .ok own) (hindexes : All table indexes fun _ _ => True) :
    Handles table s (.drop column) indexes own := by
  have hdrops := drops_of_drop? h
  cases hdrops with
  | other hother hdropped hhash => exact absurd hsqlite hother
  | @sqlite plain unique dropped hash _ hplain hunique hdropped hhash =>
      let left := (indexes.filter (·.name ≠ plain.text)).filter (·.name ≠ unique.text)
      have hall : ∀ P : String → String → Prop, All table left P ↔
          All table indexes fun origin column' =>
            s.freed (.drop column) = some origin ∨ P origin column' := by
        intro P
        simp only [TableState.freed, Option.some.injEq]
        exact all_filter_nameFor hplain hunique hindexes
      have hleft : All table left fun _ _ => True :=
        (hall _).mpr (all_imp hindexes fun _ _ _ => .inr trivial)
      refine ⟨?_, fun P => ?_⟩
      · rw [← hall, TableState.dropped, hhash]
        simp only [dropsFree_cons]
        change True ∧ True ∧ (SchemaStatement.dropColumn name dropped).Spares left ∧
          DropsFree .sqlite left (hash.map fun k => SchemaStep.mk (.dropColumn name k) []).toList ↔ _
        cases hash with
        | none =>
            simp [spares_dropColumn_iff hname hleft, hdropped, eq_comm]
        | some k =>
            simp [spares_dropColumn_iff hname hleft, hdropped, ← all_and, eq_comm]
      · have hafter : SchemaStep.indexesAfter .sqlite indexes (⟨.dropIndex plain, []⟩ ::
            ⟨.dropIndex unique, []⟩ :: ⟨.dropColumn name dropped, s.dropEffects column⟩ ::
              (hash.map fun k => SchemaStep.mk (.dropColumn name k) []).toList) = left := by
          cases hash <;> rfl
        rw [hafter, hall]
        simp [AlterAction.indexed, AlterAction.follow]

theorem handles_rename {source target : String} (hname : name.text = table)
    (h : rename? s name source target = .ok own) (hindexes : All table indexes fun _ _ => True) :
    Handles table s (.rename source target) indexes own := by
  cases acts_rename h with
  | @rename source target hplain =>
      refine ⟨iff_of_true (by simp [SchemaStatement.Spares]) ?_, fun P => ?_⟩
      · exact all_imp hindexes fun _ _ _ => .inr List.not_mem_nil
      · simp only [indexesAfter_cons, indexesAfter_nil, SchemaStatement.indexesAfter, hname]
        constructor
        · intro hP
          refine ⟨fun i hi => ?_, by simp [AlterAction.indexed]⟩
          obtain ⟨origin, column, unique, rfl, -⟩ := hindexes i hi
          obtain ⟨origin', column', unique', heq, hp⟩ := hP _ (Finset.mem_image_of_mem _ hi)
          rw [renamed_moved] at heq
          obtain ⟨rfl, rfl, -⟩ := moved_inj.mp heq
          exact ⟨origin, column, unique, rfl, .inr hp⟩
        · rintro ⟨hP, -⟩ i hi
          obtain ⟨before, hbefore, rfl⟩ := Finset.mem_image.mp hi
          obtain ⟨origin, column, unique, rfl, hfreed | hp⟩ := hP before hbefore
          · cases hfreed
          · exact ⟨origin, _, unique, renamed_moved table source.text target.text origin column unique, hp⟩

/-- What an action does in SQLite to indexes that earlier actions have made. -/
theorem handles_of_action? {a : AlterAction} (hsqlite : p.dialect = .sqlite) (hname : name.text = table)
    (h : p.action? table name s a = .ok own) (hindexes : All table indexes fun _ _ => True) :
    Handles table s a indexes own := by
  cases a with
  | add c => exact handles_add h hindexes
  | modify c =>
      have hrefused : p.modify? s name c = .ok own := h
      unfold modify? at hrefused
      split at hrefused
      · cases hrefused
      · simp only [hsqlite] at hrefused
        cases hrefused
  | drop column => exact handles_drop hsqlite hname h hindexes
  | rename source target => exact handles_rename hname h hindexes

/-! ## Lists of actions -/

/-- The steps of actions drop no column that an index is on if and only if the indexes that there are, and those
that the actions make, are dropped by their names, or stay. -/
theorem dropsFree_actions?_iff {actions : List AlterAction} {steps : List SchemaStep}
    (hsqlite : p.dialect = .sqlite) (hname : name.text = table)
    (h : p.actions? table name s actions = .ok steps) (hindexes : All table indexes fun _ _ => True) :
    DropsFree .sqlite indexes steps ↔
      (All table indexes fun origin column => p.Releases table name origin column s actions) ∧
        p.ReleasesMade table name s actions := by
  induction actions generalizing s steps indexes with
  | nil =>
      cases h
      simpa [Releases, ReleasesMade] using hindexes
  | cons a rest ih =>
      obtain ⟨own, later, hown, hlater, rfl⟩ := actions?_cons.mp h
      have hhandles := handles_of_action? hsqlite hname hown hindexes
      have hafter : All table (indexesAfter .sqlite indexes own) fun _ _ => True := by
        rw [hhandles.after]
        exact ⟨all_imp hindexes fun _ _ _ => .inr trivial, fun _ _ => trivial⟩
      -- an index that is there is dropped by its name now, or stays here and is released by the others
      have hheld : (All table indexes fun origin column => p.Releases table name origin column s (a :: rest)) ↔
          (All table indexes fun origin column => s.freed a = some origin ∨ column ∉ s.dropped a) ∧
          All table indexes fun origin column => s.freed a = some origin ∨
            p.Releases table name origin (a.follow column) (s.applySteps own) rest := by
        simp only [← all_and, Releases, leaves_of_ok hown, or_and_left]
      rw [dropsFree_append, hhandles.drops, ih hlater hafter, hhandles.after, hheld, ReleasesMade,
        leaves_of_ok hown]
      tauto

/-- In SQLite, planned changes of a table drop no column that one of their indexes is on if and only if every
index that they make is dropped by its name before its column is. -/
theorem dropsFree_iff {actions : List AlterAction} {steps : List SchemaStep} (hsqlite : p.dialect = .sqlite)
    (hname : Identifier.of? table = .ok name) (h : p.alterTable? table actions s = .ok steps) :
    DropsFree .sqlite ∅ steps ↔ p.ReleasesMade table name s actions := by
  obtain ⟨named, hnamed, hactions⟩ := alterTable?_eq_ok h
  obtain rfl : named = name := Except.ok.inj (hnamed.symm.trans hname)
  rw [dropsFree_actions?_iff hsqlite (Identifier.of?_eq_ok hname) hactions all_empty]
  exact and_iff_right all_empty

/-- A column gets another name and its own back before it is dropped, and so does one whose hashes an index is
on. -/
theorem dropsFree_iff_back :
    let p : SchemaPlanner := ⟨.sqlite, .guarded, .chacha20Poly1305⟩
    let actions : List AlterAction := [.add { name := "age", type := .integer, index := true },
      .add { name := "email", type := .string, unique := true, encrypted := true },
      .rename "age" "years", .rename "years" "age", .drop "age", .drop "email"]
    ∃ name steps, Identifier.of? "users" = .ok name ∧ p.alterTable? "users" actions {} = .ok steps ∧
      DropsFree .sqlite ∅ steps := by
  intro p actions
  let name : Identifier := ⟨"users", by decide +kernel⟩
  have hname : Identifier.of? "users" = .ok name := by decide +kernel
  obtain ⟨steps, hsteps⟩ : ∃ steps, p.alterTable? "users" actions {} = .ok steps :=
    Except.exists_of_isOk (by decide +kernel)
  exact ⟨name, steps, hname, hsteps, (dropsFree_iff rfl hname hsteps).mpr (by decide +kernel)⟩

/-- A column is dropped under another name than the one that its index was made for, so the index is still on
it. -/
theorem dropsFree_renamed :
    let p : SchemaPlanner := ⟨.sqlite, .guarded, .chacha20Poly1305⟩
    let actions : List AlterAction := [.add { name := "age", type := .integer, index := true },
      .rename "age" "years", .drop "years"]
    ∃ steps, p.alterTable? "users" actions {} = .ok steps ∧
      indexesAfter .sqlite ∅ (steps.take 5) = {⟨"idx_users_age", "users", "years", false⟩} ∧
      ¬ DropsFree .sqlite ∅ steps := by
  intro p actions
  obtain ⟨steps, hsteps, hstays⟩ := Except.exists_of_any
    (x := p.alterTable? "users" actions {})
    (p := fun steps => decide (indexesAfter .sqlite ∅ (steps.take 5) =
      {⟨"idx_users_age", "users", "years", false⟩} ∧ ¬ DropsFree .sqlite ∅ steps)) (by decide +kernel)
  exact ⟨steps, hsteps, of_decide_eq_true hstays⟩

end SchemaPlanner

end TableGate
