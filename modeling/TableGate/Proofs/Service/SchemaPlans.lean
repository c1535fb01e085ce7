import TableGate.Proofs.Schema.ActionLists
import TableGate.Proofs.Service.Tables

/-! # Planned changes of a table

Each action on a table is planned for what is remembered about the table once the earlier ones have been
carried out, and the effects of the steps lead there. What is remembered stays in the table unless a column
that hashes are kept in is dropped or renamed. -/

namespace TableGate

namespace Service

/-- What plans the schema changes of a connection. -/
def planner (s : Service) (c : Connection) : SchemaPlanner :=
  ⟨c.dialect, s.policy, s.vault.algorithm⟩

/-- The service after steps on a table, all of which have succeeded. -/
def afterSteps (s : Service) (connection table : String) (steps : List SchemaStep) : Service :=
  s.applyEffects connection table (steps.flatMap SchemaStep.effects)

/-- The steps on a table lead through the states that they have been planned for, and rename no column that
is registered as encrypted. -/
structure Follows (s : Service) (c : Connection) (table : String) (actions : List AlterAction)
    (steps : List SchemaStep) : Prop where
  state : ∀ k, (s.afterSteps c.name table (steps.take k)).tableState c.name table =
    ((steps.take k).flatMap SchemaStep.effects).foldl TableState.apply (s.tableState c.name table)
  planned : ∀ before a after, actions = before ++ a :: after → ∃ name earlier own later,
    Identifier.of? table = .ok name ∧ steps = earlier ++ own ++ later ∧
    (s.planner c).actions? table name (s.tableState c.name table) before = .ok earlier ∧
    (s.planner c).action? table name
      ((s.afterSteps c.name table earlier).tableState c.name table) a = .ok own
  renamed : ∀ first second source target,
    steps.flatMap SchemaStep.effects = first ++ .renameColumn source target :: second →
    ((s.applyEffects c.name table first).tableState c.name table).encryptedColumn? source = none
  elsewhere : ∀ k connection other, ¬(connection = c.name ∧ other = table) →
    (s.afterSteps c.name table (steps.take k)).tableState connection other =
      s.tableState connection other

/-! ## Effects one after the other -/

theorem tableState_applyEffects (s : Service) (connection table : String)
    (effects : List CatalogEffect) :
    (s.applyEffects connection table effects).tableState connection table =
      effects.foldl TableState.apply (s.tableState connection table) := by
  induction effects generalizing s with
  | nil => rfl
  | cons e effects ih =>
      rw [List.foldl_cons, ← tableState_applyEffect]
      exact ih (s.applyEffect connection table e)

theorem tableState_applyEffects_of_ne (s : Service) {connection table c t : String}
    (h : ¬(c = connection ∧ t = table)) (effects : List CatalogEffect) :
    (s.applyEffects connection table effects).tableState c t = s.tableState c t := by
  induction effects generalizing s with
  | nil => rfl
  | cons e effects ih =>
      rw [← tableState_applyEffect_of_ne s h e]
      exact ih (s.applyEffect connection table e)

theorem tableState_afterSteps (s : Service) (connection table : String) (steps : List SchemaStep) :
    (s.afterSteps connection table steps).tableState connection table =
      (s.tableState connection table).applySteps steps :=
  s.tableState_applyEffects connection table _

/-! ## Planned changes -/

variable {s : Service} {c : Connection} {table : String} {actions : List AlterAction}
  {steps : List SchemaStep}

/-- The effects of planned actions lead to the state that each action was planned for, no encrypted column
is renamed, and nothing changes for other tables. -/
theorem follows_of_plan?
    (h : (s.planner c).plan? table (s.tableState c.name table) (.alterTable actions) = .ok steps) :
    s.Follows c table actions steps := by
  obtain ⟨name, hname, hactions⟩ := SchemaPlanner.alterTable?_eq_ok h
  refine ⟨fun k => s.tableState_applyEffects c.name table _, ?_, ?_,
    fun k connection other hne => s.tableState_applyEffects_of_ne hne _⟩
  · rintro before a after rfl
    obtain ⟨earlier, rest, hearlier, hrest, rfl⟩ := SchemaPlanner.actions?_append.mp hactions
    obtain ⟨own, later, hown, -, rfl⟩ := SchemaPlanner.actions?_cons.mp hrest
    refine ⟨name, earlier, own, later, hname, (List.append_assoc earlier own later).symm, hearlier, ?_⟩
    rw [tableState_afterSteps, hown]
  · intro first second source target heffects
    rw [tableState_applyEffects]
    exact SchemaPlanner.encryptedColumn?_of_renamed hactions heffects

/-- A column that marks deleted rows is renamed, an encrypted column is added, and another one and the
renamed one are dropped. -/
theorem follows_of_plan?_users :
    let c : Connection := ⟨"main", .sqlite, "sqlite::memory:", .shared, 10⟩
    let vault := (Vault.new .standard ⟨[⟨1, List.replicate 32 7⟩], ⟨1, List.replicate 32 7⟩⟩ []
      .chacha20Poly1305).register "main" "users" (.searchable "email")
    let s : Service := ⟨⟨.empty, none, .empty⟩, vault, Catalog.empty.enable "main" "users" "deleted_at",
      .guarded⟩
    let actions : List AlterAction := [.rename "deleted_at" "removed_at",
      .add { name := "phone", type := .string, encrypted := true }, .drop "email", .drop "removed_at"]
    ∃ steps, (s.planner c).plan? "users" (s.tableState "main" "users") (.alterTable actions) = .ok steps ∧
      s.Follows c "users" actions steps := by
  intro c vault s actions
  obtain ⟨steps, hplan⟩ : ∃ steps,
      (s.planner c).plan? "users" (s.tableState "main" "users") (.alterTable actions) = .ok steps :=
    Except.exists_of_isOk (by decide +kernel)
  exact ⟨steps, hplan, follows_of_plan? hplan⟩

/-- After a planned change of a table, none of whose statements has been refused, what is remembered about
the table is in it if and only if each column that is remembered has been put back whenever hashes were kept
in it and an action dropped it or gave it another name. -/
theorem within_afterSteps_iff {name : Identifier} (hname : Identifier.of? table = .ok name)
    (h : (s.planner c).plan? table (s.tableState c.name table) (.alterTable actions) = .ok steps)
    {columns columns' : Finset String} (hwithin : (s.tableState c.name table).Within columns)
    (hcolumns : SchemaStep.columnsAfter? name columns steps = some columns') :
    ((s.afterSteps c.name table steps).tableState c.name table).Within columns' ↔
      ∀ column ∈ ((s.afterSteps c.name table steps).tableState c.name table).references,
        (s.planner c).PutsBack table name column (s.tableState c.name table) actions := by
  obtain ⟨named, hnamed, hactions⟩ := SchemaPlanner.alterTable?_eq_ok h
  obtain rfl : named = name := Except.ok.inj (hnamed.symm.trans hname)
  rw [tableState_afterSteps]
  exact SchemaPlanner.within_iff hactions hwithin hcolumns

/-- What is remembered stays in a table that gets another encrypted column and loses the column that marks
deleted rows, while a column of hashes is given another name and gets its own back. -/
theorem within_afterSteps_iff_users :
    let c : Connection := ⟨"main", .sqlite, "sqlite::memory:", .shared, 10⟩
    let vault := (Vault.new .standard ⟨[⟨1, List.replicate 32 7⟩], ⟨1, List.replicate 32 7⟩⟩ []
      .chacha20Poly1305).register "main" "users" (.searchable "email")
    let s : Service := ⟨⟨.empty, none, .empty⟩, vault, Catalog.empty.enable "main" "users" "deleted_at",
      .guarded⟩
    let actions : List AlterAction := [.rename "email_hash" "digest", .drop "deleted_at",
      .add { name := "phone", type := .string, encrypted := true }, .rename "digest" "email_hash"]
    let columns : Finset String := {"id", "email", "email_hash", "deleted_at"}
    ∃ name steps columns', Identifier.of? "users" = .ok name ∧
      (s.planner c).plan? "users" (s.tableState "main" "users") (.alterTable actions) = .ok steps ∧
      (s.tableState "main" "users").Within columns ∧
      SchemaStep.columnsAfter? name columns steps = some columns' ∧
      ((s.afterSteps "main" "users" steps).tableState "main" "users").Within columns' := by
  intro c vault s actions columns
  let name : Identifier := ⟨"users", by decide +kernel⟩
  let fits (steps : List SchemaStep) : Bool :=
    (SchemaStep.columnsAfter? name columns steps).isSome &&
      decide (∀ column ∈ ((s.afterSteps "main" "users" steps).tableState "main" "users").references,
        (s.planner c).PutsBack "users" name column (s.tableState "main" "users") actions)
  have hname : Identifier.of? "users" = .ok name := by decide +kernel
  have hwithin : (s.tableState "main" "users").Within columns := by decide +kernel
  obtain ⟨steps, hplan, hfits⟩ : ∃ steps,
      (s.planner c).plan? "users" (s.tableState "main" "users") (.alterTable actions) = .ok steps ∧
        fits steps = true := Except.exists_of_any (by decide +kernel)
  obtain ⟨happlied, hback⟩ := Bool.and_eq_true_iff.mp hfits
  obtain ⟨columns', hcolumns⟩ := Option.isSome_iff_exists.mp happlied
  exact ⟨name, steps, columns', hname, hplan, hwithin, hcolumns,
    (within_afterSteps_iff hname hplan hwithin hcolumns).mpr (of_decide_eq_true hback)⟩

/-- A column of hashes that gets another name is still remembered under the old one, which the table does
not have any more. -/
theorem within_renamed_hash :
    let c : Connection := ⟨"main", .sqlite, "sqlite::memory:", .shared, 10⟩
    let vault := (Vault.new .standard ⟨[⟨1, List.replicate 32 7⟩], ⟨1, List.replicate 32 7⟩⟩ []
      .chacha20Poly1305).register "main" "users" (.searchable "email")
    let s : Service := ⟨⟨.empty, none, .empty⟩, vault, .empty, .guarded⟩
    let columns : Finset String := {"id", "email", "email_hash"}
    let columns' : Finset String := {"id", "email", "email_digest"}
    ∃ name steps, Identifier.of? "users" = .ok name ∧
      (s.planner c).plan? "users" (s.tableState "main" "users")
        (.alterTable [.rename "email_hash" "email_digest"]) = .ok steps ∧
      (s.tableState "main" "users").Within columns ∧
      SchemaStep.columnsAfter? name columns steps = some columns' ∧
      ¬((s.afterSteps "main" "users" steps).tableState "main" "users").Within columns' := by
  intro c vault s columns columns'
  let name : Identifier := ⟨"users", by decide +kernel⟩
  let misses (steps : List SchemaStep) : Bool :=
    decide (SchemaStep.columnsAfter? name columns steps = some columns') &&
      !decide (((s.afterSteps "main" "users" steps).tableState "main" "users").Within columns')
  obtain ⟨steps, hplan, hmisses⟩ : ∃ steps, (s.planner c).plan? "users" (s.tableState "main" "users")
      (.alterTable [.rename "email_hash" "email_digest"]) = .ok steps ∧ misses steps = true :=
    Except.exists_of_any (by decide +kernel)
  obtain ⟨hcolumns, hwithin⟩ := Bool.and_eq_true_iff.mp hmisses
  exact ⟨name, steps, by decide +kernel, hplan, by decide +kernel, of_decide_eq_true hcolumns,
    by simpa using hwithin⟩

end Service

end TableGate
