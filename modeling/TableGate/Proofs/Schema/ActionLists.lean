import TableGate.Proofs.Schema.Remembered

/-! # Lists of actions

Each action is planned for the state that the earlier ones leave. So a column that is remembered at the end
is in the table, unless hashes were kept in it when an action took it out and none has brought it back. -/

namespace TableGate

theorem TableState.applySteps_append (s : TableState) (earlier later : List SchemaStep) :
    s.applySteps (earlier ++ later) = (s.applySteps earlier).applySteps later := by
  rw [applySteps, applySteps, applySteps, List.flatMap_append, List.foldl_append]

namespace SchemaPlanner

/-- Behind every action that takes the column out while hashes are kept in it, each planned for the state
that the earlier ones leave, there is one that brings it back. -/
def PutsBack (p : SchemaPlanner) (table : String) (name : Identifier) (column : String) :
    TableState → List AlterAction → Prop
  | _, [] => True
  | s, a :: rest =>
    (column ∈ s.taken a → column ∈ s.hashColumns → ∃ b ∈ rest, column ∈ b.given) ∧
      match p.action? table name s a with
      | .ok own => PutsBack p table name column (s.applySteps own) rest
      | .error _ => True

instance decidablePutsBack (p : SchemaPlanner) (table : String) (name : Identifier) (column : String)
    (s : TableState) : (actions : List AlterAction) → Decidable (p.PutsBack table name column s actions)
  | [] => inferInstanceAs (Decidable True)
  | a :: rest =>
    have : Decidable (match p.action? table name s a with
        | .ok own => PutsBack p table name column (s.applySteps own) rest
        | .error _ => True) :=
      match p.action? table name s a with
      | .ok own => decidablePutsBack p table name column (s.applySteps own) rest
      | .error _ => inferInstanceAs (Decidable True)
    inferInstanceAs (Decidable (_ ∧ _))

variable {p : SchemaPlanner} {table : String} {name : Identifier} {s : TableState}
  {steps : List SchemaStep}

theorem actions?_cons {a : AlterAction} {rest : List AlterAction} :
    p.actions? table name s (a :: rest) = .ok steps ↔
      ∃ own later, p.action? table name s a = .ok own ∧
        p.actions? table name (s.applySteps own) rest = .ok later ∧ steps = own ++ later := by
  simp only [actions?, Except.bind_eq_ok, Except.pure_eq_ok, @eq_comm _ _ steps]
  constructor
  · rintro ⟨own, hown, later, hlater, h⟩
    exact ⟨own, later, hown, hlater, h⟩
  · rintro ⟨own, later, hown, hlater, h⟩
    exact ⟨own, hown, later, hlater, h⟩

theorem actions?_append {before after : List AlterAction} :
    p.actions? table name s (before ++ after) = .ok steps ↔
      ∃ earlier later, p.actions? table name s before = .ok earlier ∧
        p.actions? table name (s.applySteps earlier) after = .ok later ∧ steps = earlier ++ later := by
  induction before generalizing s steps with
  | nil => simp [actions?, TableState.applySteps]
  | cons a before ih =>
      simp only [List.cons_append, actions?_cons, ih]
      constructor
      · rintro ⟨own, _, hown, ⟨earlier, later, hearlier, hlater, rfl⟩, rfl⟩
        refine ⟨own ++ earlier, later, ⟨own, earlier, hown, hearlier, rfl⟩, ?_, ?_⟩
        · rwa [TableState.applySteps_append]
        · rw [List.append_assoc]
      · rintro ⟨_, later, ⟨own, earlier, hown, hearlier, rfl⟩, hlater, rfl⟩
        rw [TableState.applySteps_append] at hlater
        exact ⟨own, earlier ++ later, hown, ⟨earlier, later, hearlier, hlater, rfl⟩,
          List.append_assoc own earlier later⟩

theorem alterTable?_eq_ok {actions : List AlterAction} (h : p.alterTable? table actions s = .ok steps) :
    ∃ name, Identifier.of? table = .ok name ∧ p.actions? table name s actions = .ok steps := by
  unfold alterTable? at h
  split at h
  · cases h
  · exact Except.bind_eq_ok.mp h

/-- What is remembered after actions has been remembered before, or one of them has brought it. -/
theorem mem_references_of_actions? {actions : List AlterAction}
    (h : p.actions? table name s actions = .ok steps) {column : String}
    (hcolumn : column ∈ (s.applySteps steps).references) :
    column ∈ s.references ∨ ∃ a ∈ actions, column ∈ a.given := by
  induction actions generalizing s steps with
  | nil =>
      cases h
      exact .inl hcolumn
  | cons a rest ih =>
      obtain ⟨own, later, hown, hlater, rfl⟩ := actions?_cons.mp h
      rw [TableState.applySteps_append] at hcolumn
      rcases ih hlater hcolumn with hcolumn | ⟨b, hb, hcolumn⟩
      · rcases (acts_of_action? hown).effectsOf.mem_references hcolumn with hgiven | hbefore
        · exact .inr ⟨a, List.mem_cons_self, hgiven⟩
        · exact .inl hbefore
      · exact .inr ⟨b, List.mem_cons_of_mem a hb, hcolumn⟩

/-- Whatever actions are planned, a column is renamed only if it is not registered as encrypted by then. -/
theorem encryptedColumn?_of_renamed {actions : List AlterAction}
    (h : p.actions? table name s actions = .ok steps) {first second : List CatalogEffect}
    {source target : String}
    (heffects : steps.flatMap SchemaStep.effects = first ++ .renameColumn source target :: second) :
    (first.foldl TableState.apply s).encryptedColumn? source = none := by
  induction actions generalizing s steps first with
  | nil =>
      cases h
      simp at heffects
  | cons a rest ih =>
      obtain ⟨own, later, hown, hlater, rfl⟩ := actions?_cons.mp h
      rw [List.flatMap_append] at heffects
      -- the effect is one of the first action, or of one of the others
      rcases List.append_eq_append_iff.mp heffects with ⟨between, hfirst, hrest⟩ | ⟨between, hown', hrest⟩
      · subst hfirst
        rw [List.foldl_append]
        exact ih hlater hrest
      · cases between with
        | nil =>
            have hlist : later.flatMap SchemaStep.effects =
                [] ++ .renameColumn source target :: second := hrest.symm
            rw [List.append_nil] at hown'
            rw [← hown']
            exact ih hlater hlist
        | cons e between =>
            obtain ⟨rfl, -⟩ := List.cons.inj hrest
            exact (acts_of_action? hown).effectsOf.encryptedColumn?_of_renamed hown'

/-- A column that an action takes out is brought back by a later one if it is remembered at the end, unless
hashes were kept in it. -/
theorem exists_given_of_taken {a : AlterAction} {rest : List AlterAction} {own later : List SchemaStep}
    (hown : p.action? table name s a = .ok own)
    (hlater : p.actions? table name (s.applySteps own) rest = .ok later) {column : String}
    (htaken : column ∈ s.taken a) (hhash : column ∉ s.hashColumns)
    (hcolumn : column ∈ ((s.applySteps own).applySteps later).references) :
    ∃ b ∈ rest, column ∈ b.given :=
  (mem_references_of_actions? hlater hcolumn).resolve_left
    ((acts_of_action? hown).effectsOf.notMem_references htaken hhash)

/-- After actions, none of whose steps has been refused, a column that is remembered is there if and only if
it was there before or one of the actions has brought it, and it has been put back. -/
theorem mem_columns_iff {actions : List AlterAction} (h : p.actions? table name s actions = .ok steps)
    {columns columns' : Finset String}
    (hcolumns : SchemaStep.columnsAfter? name columns steps = some columns') {column : String}
    (hcolumn : column ∈ (s.applySteps steps).references) :
    column ∈ columns' ↔ p.PutsBack table name column s actions ∧
      (column ∈ columns ∨ ∃ a ∈ actions, column ∈ a.given) := by
  induction actions generalizing s steps columns with
  | nil =>
      cases h
      cases hcolumns
      simp [PutsBack]
  | cons a rest ih =>
      obtain ⟨own, later, hown, hlater, rfl⟩ := actions?_cons.mp h
      rw [SchemaStep.columnsAfter?_append, Option.bind_eq_some_iff] at hcolumns
      obtain ⟨between, hbetween, hcolumns⟩ := hcolumns
      rw [TableState.applySteps_append] at hcolumn
      have hfirst := (acts_of_action? hown).mem_columns_iff hbetween column
      rw [ih hlater hcolumns hcolumn, hfirst, PutsBack, hown, List.exists_mem_cons_iff]
      by_cases hback : ∃ b ∈ rest, column ∈ b.given
      · simp [hback]
      · by_cases htaken : column ∈ s.taken a
        · have hgiven : column ∉ a.given := fun h => s.notMem_taken_of_mem_given h htaken
          have hhash : column ∈ s.hashColumns := by
            by_contra hhash
            exact hback (exists_given_of_taken hown hlater htaken hhash hcolumn)
          simp [hback, htaken, hgiven, hhash]
        · simp [hback, htaken, or_comm]

/-- What is remembered about a table is still in it after actions if and only if each column that is
remembered then has been put back whenever it was taken out while hashes were kept in it. -/
theorem within_iff {actions : List AlterAction} (h : p.actions? table name s actions = .ok steps)
    {columns columns' : Finset String} (hwithin : s.Within columns)
    (hcolumns : SchemaStep.columnsAfter? name columns steps = some columns') :
    (s.applySteps steps).Within columns' ↔
      ∀ column ∈ (s.applySteps steps).references, p.PutsBack table name column s actions := by
  refine forall₂_congr fun column hcolumn => ?_
  rw [mem_columns_iff h hcolumns hcolumn, and_iff_left]
  exact (mem_references_of_actions? h hcolumn).imp_left (hwithin column)

end SchemaPlanner

end TableGate
