import TableGate.Proofs.Schema.Actions

/-! # What is remembered about a table

An action registers the encrypted column that it adds, forgets the column that it drops, or follows a column
to another name. So what is remembered afterwards was remembered before or is brought by the action, and
what is taken out is forgotten, unless hashes are kept in it. -/

namespace TableGate

/-- The columns that are remembered by an effect. -/
def CatalogEffect.remembered : CatalogEffect → List String
  | .registerEncrypted e => e.column :: e.hashColumn.toList
  | .unregisterEncrypted _ => []
  | .renameColumn _ target => [target]
  | .enableSoftDelete column => [column]
  | .disableSoftDelete => []
  | .dropTable => []

namespace TableState

/-- The columns that hashes of other columns are kept in. -/
def hashColumns (s : TableState) : List String :=
  s.encrypted.filterMap EncryptedColumn.hashColumn

/-- The columns that are remembered: those that are encrypted, those that hold hashes, and the one that
marks deleted rows. -/
def references (s : TableState) : List String :=
  s.encrypted.map EncryptedColumn.column ++ s.hashColumns ++ s.softDelete.toList

/-- Every column that is remembered is a column of the table. -/
def Within (s : TableState) (columns : Finset String) : Prop :=
  ∀ column ∈ s.references, column ∈ columns

instance (s : TableState) (columns : Finset String) : Decidable (s.Within columns) :=
  inferInstanceAs (Decidable (∀ column ∈ s.references, column ∈ columns))

theorem mem_references {s : TableState} {column : String} :
    column ∈ s.references ↔
      (∃ e ∈ s.encrypted, e.column = column ∨ e.hashColumn = some column) ∨
        s.softDelete = some column := by
  simp only [references, hashColumns, List.mem_append, List.mem_map, List.mem_filterMap,
    Option.mem_toList, and_or_left, exists_or]

theorem mem_hashColumns {s : TableState} {column : String} :
    column ∈ s.hashColumns ↔ ∃ e ∈ s.encrypted, e.hashColumn = some column :=
  List.mem_filterMap

theorem encryptedColumn?_eq_none {s : TableState} {column : String} :
    s.encryptedColumn? column = none ↔ ∀ e ∈ s.encrypted, e.column ≠ column := by
  simp [encryptedColumn?, EncryptedColumn.find?]

/-! ## One effect after the other -/

theorem mem_references_apply {s : TableState} {e : CatalogEffect} {column : String}
    (h : column ∈ (s.apply e).references) : column ∈ s.references ∨ column ∈ e.remembered := by
  cases e with
  | registerEncrypted new =>
      simp only [mem_references, apply, EncryptedColumn.register, List.mem_append, List.mem_filter,
        List.mem_singleton] at h
      rcases h with ⟨e, ⟨he, -⟩ | rfl, hcolumn⟩ | hsoft
      · exact .inl (mem_references.mpr (.inl ⟨e, he, hcolumn⟩))
      · right
        simpa [CatalogEffect.remembered, eq_comm] using hcolumn
      · exact .inl (mem_references.mpr (.inr hsoft))
  | unregisterEncrypted name =>
      simp only [mem_references, apply, EncryptedColumn.unregister, List.mem_filter] at h
      rcases h with ⟨e, ⟨he, -⟩, hcolumn⟩ | hsoft
      · exact .inl (mem_references.mpr (.inl ⟨e, he, hcolumn⟩))
      · exact .inl (mem_references.mpr (.inr hsoft))
  | renameColumn source target =>
      simp only [mem_references, apply, EncryptedColumn.rename, List.mem_map] at h
      rcases h with ⟨_, ⟨e, he, rfl⟩, hcolumn⟩ | hsoft
      · split at hcolumn
        · rcases hcolumn with rfl | hhash
          · exact .inr (List.mem_singleton_self _)
          · exact .inl (mem_references.mpr (.inl ⟨e, he, .inr hhash⟩))
        · exact .inl (mem_references.mpr (.inl ⟨e, he, hcolumn⟩))
      · split at hsoft
        · exact .inr (List.mem_singleton.mpr (Option.some.inj hsoft).symm)
        · exact .inl (mem_references.mpr (.inr hsoft))
  | enableSoftDelete name =>
      rcases mem_references.mp h with hencrypted | hsoft
      · exact .inl (mem_references.mpr (.inl hencrypted))
      · exact .inr (List.mem_singleton.mpr (Option.some.inj hsoft).symm)
  | disableSoftDelete =>
      rcases mem_references.mp h with hencrypted | hsoft
      · exact .inl (mem_references.mpr (.inl hencrypted))
      · cases hsoft
  | dropTable => simp [apply, mem_references] at h

theorem mem_references_foldl {s : TableState} {effects : List CatalogEffect} {column : String}
    (h : column ∈ (effects.foldl apply s).references) :
    column ∈ s.references ∨ ∃ e ∈ effects, column ∈ e.remembered := by
  induction effects generalizing s with
  | nil => exact .inl h
  | cons e effects ih =>
      rcases ih h with hhead | ⟨d, hd, hcolumn⟩
      · exact (mem_references_apply hhead).imp_right fun hcolumn => ⟨e, List.mem_cons_self, hcolumn⟩
      · exact .inr ⟨d, List.mem_cons_of_mem e hd, hcolumn⟩

theorem mem_dropEffects {s : TableState} {column : String} {e : CatalogEffect}
    (h : e ∈ s.dropEffects column) : e = .unregisterEncrypted column ∨ e = .disableSoftDelete := by
  rcases List.mem_append.mp h with h | h <;> split at h <;> simp at h
  · exact .inl h
  · exact .inr h

theorem foldl_dropEffects (s : TableState) (column : String) :
    (s.dropEffects column).foldl apply s =
      ⟨EncryptedColumn.unregister s.encrypted column,
        if s.softDelete = some column then none else s.softDelete⟩ := by
  have hunregister : (if (s.encryptedColumn? column).isSome then
      [CatalogEffect.unregisterEncrypted column] else []).foldl apply s =
        { s with encrypted := EncryptedColumn.unregister s.encrypted column } := by
    split
    · rfl
    · rename_i hplain
      have hothers := encryptedColumn?_eq_none.mp (by simpa using hplain)
      have hsame : EncryptedColumn.unregister s.encrypted column = s.encrypted :=
        List.filter_eq_self.mpr fun e he => by simpa using hothers e he
      rw [hsame]
      rfl
  rw [dropEffects, List.foldl_append, hunregister]
  split <;> rfl

theorem notMem_references_dropEffects {s : TableState} {column : String} (h : column ∉ s.hashColumns) :
    column ∉ ((s.dropEffects column).foldl apply s).references := by
  rw [foldl_dropEffects, mem_references]
  rintro (⟨e, he, hcolumn⟩ | hsoft)
  · obtain ⟨he, hne⟩ := List.mem_filter.mp he
    rcases hcolumn with rfl | hhash
    · simp at hne
    · exact h (mem_hashColumns.mpr ⟨e, he, hhash⟩)
  · simp only at hsoft
    split at hsoft
    · cases hsoft
    · contradiction

theorem notMem_references_rename {s : TableState} {source target : String} (hne : source ≠ target)
    (hplain : s.encryptedColumn? source = none) (h : source ∉ s.hashColumns) :
    source ∉ (s.apply (.renameColumn source target)).references := by
  have hencrypted : EncryptedColumn.rename s.encrypted source target = s.encrypted := by
    refine (List.map_congr_left fun e he => ?_).trans (List.map_id s.encrypted)
    exact if_neg (encryptedColumn?_eq_none.mp hplain e he)
  rw [apply, hencrypted, mem_references]
  rintro (⟨e, he, hcolumn | hhash⟩ | hsoft)
  · exact encryptedColumn?_eq_none.mp hplain e he hcolumn
  · exact h (mem_hashColumns.mpr ⟨e, he, hhash⟩)
  · simp only at hsoft
    split at hsoft
    · exact hne (Option.some.inj hsoft).symm
    · contradiction

end TableState

/-! ## The effects of an action -/

/-- The effects of an action on a table about which a state is remembered. -/
inductive EffectsOf (s : TableState) : AlterAction → List CatalogEffect → Prop
  | nothing {a : AlterAction} (htaken : s.taken a = []) : EffectsOf s a []
  | registered {c : ColumnDefinition} {e : EncryptedColumn}
      (hgiven : ∀ column ∈ (CatalogEffect.registerEncrypted e).remembered,
        column ∈ (AlterAction.add c).given) :
      EffectsOf s (.add c) [.registerEncrypted e]
  | dropped {column : String} : EffectsOf s (.drop column) (s.dropEffects column)
  | renamed {source target : String} (hplain : s.encryptedColumn? source = none) :
      EffectsOf s (.rename source target) [.renameColumn source target]

theorem Acts.effectsOf {name : Identifier} {s : TableState} {a : AlterAction} {steps : List SchemaStep}
    (h : Acts name s a steps) : EffectsOf s a (steps.flatMap SchemaStep.effects) := by
  cases h with
  | add hplain hname hidle =>
      rw [List.flatMap_cons, SchemaStep.flatMap_effects_of_idle hidle]
      exact .nothing rfl
  | addSealed hsealed hname hcolumn hhash =>
      refine .registered ?_
      simp [CatalogEffect.remembered, AlterAction.given, hsealed, hcolumn, hhash]
  | addSearchable hencrypted hsearchable hname hhashName hcolumn hhash hindex =>
      rw [List.flatMap_cons, List.flatMap_cons, List.flatMap_singleton, hindex.effects]
      refine .registered ?_
      simp [CatalogEffect.remembered, AlterAction.given, hencrypted, hsearchable, hcolumn, hhash]
  | modify hidle =>
      rw [SchemaStep.flatMap_effects_of_idle hidle]
      exact .nothing rfl
  | @drop dropped idle hash hhash hidle =>
      have heffects : (idle ++ ⟨.dropColumn name dropped, s.dropEffects dropped.text⟩ ::
          (hash.map fun h => SchemaStep.mk (.dropColumn name h) []).toList).flatMap SchemaStep.effects =
          s.dropEffects dropped.text := by
        cases hash <;> simp [SchemaStep.flatMap_effects_of_idle hidle]
      rw [heffects]
      exact .dropped
  | rename hplain => exact .renamed hplain

namespace EffectsOf

variable {s : TableState} {a : AlterAction} {effects : List CatalogEffect}

/-- The action brings every column that is remembered by one of its effects. -/
theorem given_of_remembered (h : EffectsOf s a effects) {e : CatalogEffect} (he : e ∈ effects)
    {column : String} (hcolumn : column ∈ e.remembered) : column ∈ a.given := by
  cases h with
  | nothing htaken => cases he
  | registered hgiven =>
      obtain rfl := List.mem_singleton.mp he
      exact hgiven column hcolumn
  | dropped =>
      rcases TableState.mem_dropEffects he with rfl | rfl <;> cases hcolumn
  | renamed hplain =>
      obtain rfl := List.mem_singleton.mp he
      exact hcolumn

/-- What is remembered afterwards has been remembered before, or is brought by the action. -/
theorem mem_references (h : EffectsOf s a effects) {column : String}
    (hcolumn : column ∈ (effects.foldl TableState.apply s).references) :
    column ∈ a.given ∨ column ∈ s.references := by
  rcases TableState.mem_references_foldl hcolumn with hbefore | ⟨e, he, hremembered⟩
  · exact .inr hbefore
  · exact .inl (h.given_of_remembered he hremembered)

/-- What an action takes out is forgotten, unless hashes have been kept there. -/
theorem notMem_references (h : EffectsOf s a effects) {column : String} (htaken : column ∈ s.taken a)
    (hhash : column ∉ s.hashColumns) : column ∉ (effects.foldl TableState.apply s).references := by
  cases h with
  | nothing hnone =>
      rw [hnone] at htaken
      cases htaken
  | registered hgiven => cases htaken
  | @dropped name =>
      rcases List.mem_cons.mp htaken with rfl | hmem
      · exact TableState.notMem_references_dropEffects hhash
      · -- the hash column of the dropped one
        obtain ⟨e, he, hcolumn⟩ := Option.bind_eq_some_iff.mp (Option.mem_toList.mp hmem)
        exact absurd (TableState.mem_hashColumns.mpr ⟨e, List.mem_of_find?_eq_some he, hcolumn⟩) hhash
  | @renamed source target hplain =>
      rw [TableState.taken] at htaken
      split at htaken
      · cases htaken
      · rename_i hne
        obtain rfl := List.mem_singleton.mp htaken
        exact TableState.notMem_references_rename hne hplain hhash

/-- A column is renamed only if it is not registered as encrypted by then. -/
theorem encryptedColumn?_of_renamed (h : EffectsOf s a effects) {first second : List CatalogEffect}
    {source target : String} (heffects : effects = first ++ .renameColumn source target :: second) :
    (first.foldl TableState.apply s).encryptedColumn? source = none := by
  have hmem : .renameColumn source target ∈ effects := heffects ▸ List.mem_append_cons_self
  cases h with
  | nothing htaken => cases hmem
  | registered hgiven => cases List.mem_singleton.mp hmem
  | dropped => rcases TableState.mem_dropEffects hmem with hsame | hsame <;> cases hsame
  | renamed hplain =>
      rcases List.append_eq_singleton_iff.mp heffects.symm with ⟨rfl, hsame⟩ | ⟨-, hnone⟩
      · obtain ⟨rfl, -⟩ := CatalogEffect.renameColumn.inj (List.cons.inj hsame).1
        exact hplain
      · cases hnone

end EffectsOf

end TableGate
