import TableGate.Proofs.Schema.Actions

/-! # Drafts of new tables

A new table is drafted column by column. What a column brings into the draft is one of six things, by whether it
is encrypted and searched and by how its values are told apart; behind the columns come the times that the
blueprint asks for without naming them. -/

namespace TableGate

namespace TableBlueprint

/-- The columns that a blueprint asks for by name. -/
def named (b : TableBlueprint) : List String :=
  b.columns.map ColumnDefinition.name

/-- The columns for times that a blueprint asks for without naming them. -/
def times (b : TableBlueprint) : List String :=
  (if b.timestamps then ["created_at", "updated_at"] else []) ++
    if b.softDelete then [defaultSoftDelete] else []

/-- The times that are not also asked for by name. -/
def addedTimes (b : TableBlueprint) : List String :=
  b.times.filter (· ∉ b.named)

theorem nodup_times (b : TableBlueprint) : b.times.Nodup := by
  cases hstamps : b.timestamps <;> cases hsoft : b.softDelete <;>
    simp [times, hstamps, hsoft, defaultSoftDelete]

end TableBlueprint

/-- What a column brings into the draft of a table: clauses, effects, and steps behind the creation. -/
inductive Drafts (p : SchemaPlanner) (table : String) (encryption : Option TableEncryption)
    (c : ColumnDefinition) : List ColumnClause → List CatalogEffect → List SchemaStep → Prop
  | plain {clause : ColumnClause} (hplain : c.encrypted = false)
      (hunique : c.unique = true → c.type.isAutoIncrement = true) (hindex : c.index = false)
      (hclause : c.clause? p.dialect = .ok clause) :
      Drafts p table encryption c [clause] [] []
  | unique {clause : ColumnClause} (hplain : c.encrypted = false) (hunique : c.unique = true)
      (hcounted : c.type.isAutoIncrement = false) (hclause : c.clause? p.dialect = .ok clause) :
      Drafts p table encryption c [{ clause with unique := true }] [] []
  | indexed {clause : ColumnClause} {index : SchemaStatement} (hplain : c.encrypted = false)
      (hunique : c.unique = true → c.type.isAutoIncrement = true) (hindex : c.index = true)
      (hclause : c.clause? p.dialect = .ok clause) (hstep : createIndex? table c.name false = .ok index) :
      Drafts p table encryption c [clause] [] [⟨index, []⟩]
  | sealed {clause : ColumnClause} {e : EncryptedColumn} (hencrypted : c.encrypted = true)
      (hsealed : c.isSearchable = false) (hcolumn : p.encryptedColumn? c encryption = .ok e)
      (hclause : c.encryptedClause? = .ok clause) :
      Drafts p table encryption c [clause] [.registerEncrypted e] []
  | searchable {clause hashClause : ColumnClause} {e : EncryptedColumn} {index : SchemaStatement}
      (hencrypted : c.encrypted = true) (hsearchable : c.isSearchable = true) (hunique : c.unique = false)
      (hcolumn : p.encryptedColumn? c encryption = .ok e) (hclause : c.encryptedClause? = .ok clause)
      (hhash : ColumnClause.hash? c.hashColumn = .ok hashClause)
      (hstep : createIndex? table c.hashColumn false = .ok index) :
      Drafts p table encryption c [clause, hashClause] [.registerEncrypted e] [⟨index, []⟩]
  | searchableUnique {clause hashClause : ColumnClause} {e : EncryptedColumn}
      (hencrypted : c.encrypted = true) (hsearchable : c.isSearchable = true) (hunique : c.unique = true)
      (hcolumn : p.encryptedColumn? c encryption = .ok e) (hclause : c.encryptedClause? = .ok clause)
      (hhash : ColumnClause.hash? c.hashColumn = .ok hashClause) :
      Drafts p table encryption c [clause, { hashClause with unique := true }] [.registerEncrypted e] []

/-- The draft with columns, clauses, effects and steps behind those that it has. -/
def TableDraft.extend (t : TableDraft) (columns : List String) (clauses : List ColumnClause)
    (effects : List CatalogEffect) (trailing : List SchemaStep) : TableDraft :=
  ⟨t.seen ++ columns, t.clauses ++ clauses, t.effects ++ effects, t.trailing ++ trailing⟩

theorem TableDraft.extend_extend (t : TableDraft) (columns columns' : List String)
    (clauses clauses' : List ColumnClause) (effects effects' : List CatalogEffect)
    (trailing trailing' : List SchemaStep) :
    (t.extend columns clauses effects trailing).extend columns' clauses' effects' trailing' =
      t.extend (columns ++ columns') (clauses ++ clauses') (effects ++ effects') (trailing ++ trailing') := by
  simp [extend]

namespace SchemaPlanner

variable {p : SchemaPlanner} {table : String} {encryption : Option TableEncryption} {t t' : TableDraft}
  {c : ColumnDefinition}

theorem draftEncrypted?_eq_ok (h : p.draftEncrypted? table encryption t c = .ok t')
    (hencrypted : c.encrypted = true) :
    ∃ clauses effects trailing, Drafts p table encryption c clauses effects trailing ∧
      t' = t.extend [] clauses effects trailing := by
  simp only [draftEncrypted?, Except.bind_eq_ok] at h
  obtain ⟨e, he, clause, hclause, h⟩ := h
  obtain ⟨-, hhash⟩ := eq_of_encryptedColumn? he
  cases hsearchable : c.isSearchable with
  | false =>
      simp only [hsearchable, Bool.false_eq_true, if_false] at hhash
      simp only [hhash, pure_bind, Except.pure_eq_ok] at h
      subst h
      exact ⟨_, _, _, .sealed hencrypted hsearchable he hclause,
        by simp [TableDraft.extend, TableDraft.effect, TableDraft.define]⟩
  | true =>
      simp only [hsearchable, if_true] at hhash
      simp only [hhash, pure_bind, Except.bind_eq_ok] at h
      obtain ⟨hashClause, hhashClause, h⟩ := h
      split at h
      · rename_i hunique
        cases h
        exact ⟨_, _, _, .searchableUnique hencrypted hsearchable hunique he hclause hhashClause,
          by simp [TableDraft.extend, TableDraft.effect, TableDraft.define]⟩
      · rename_i hunique
        simp only [Except.bind_eq_ok, Except.pure_eq_ok] at h
        obtain ⟨index, hindex, rfl⟩ := h
        rw [Bool.not_eq_true] at hunique
        exact ⟨_, _, _, .searchable hencrypted hsearchable hunique he hclause hhashClause hindex,
          by simp [TableDraft.extend, TableDraft.effect, TableDraft.define, TableDraft.follow]⟩

theorem draftPlain?_eq_ok (h : p.draftPlain? table t c = .ok t') (hplain : c.encrypted = false) :
    ∃ clauses effects trailing, Drafts p table encryption c clauses effects trailing ∧
      t' = t.extend [] clauses effects trailing := by
  simp only [draftPlain?, Except.bind_eq_ok] at h
  obtain ⟨clause, hclause, h⟩ := h
  split at h
  · rename_i hunique
    simp only [Bool.and_eq_true, Bool.not_eq_true'] at hunique
    cases h
    exact ⟨_, _, _, .unique hplain hunique.1 hunique.2 hclause,
      by simp [TableDraft.extend, TableDraft.define]⟩
  · rename_i hunique
    have hcounted : c.unique = true → c.type.isAutoIncrement = true := by simpa using hunique
    split at h
    · rename_i hindex
      simp only [Except.bind_eq_ok, Except.pure_eq_ok] at h
      obtain ⟨index, hstep, rfl⟩ := h
      exact ⟨_, _, _, .indexed hplain hcounted hindex hclause hstep,
        by simp [TableDraft.extend, TableDraft.define, TableDraft.follow]⟩
    · rename_i hindex
      cases h
      exact ⟨_, _, _, .plain hplain hcounted (by simpa using hindex) hclause,
        by simp [TableDraft.extend, TableDraft.define]⟩

/-- Everything that one more column does to the draft of a table. -/
theorem draftColumn?_eq_ok (h : p.draftColumn? table encryption t c = .ok t') :
    c.name ∉ t.seen ∧ ∃ clauses effects trailing, Drafts p table encryption c clauses effects trailing ∧
      t' = t.extend [c.name] clauses effects trailing := by
  unfold draftColumn? at h
  split at h
  · cases h
  · rename_i hseen
    refine ⟨by simpa using hseen, ?_⟩
    have hsplit : ∃ clauses effects trailing, Drafts p table encryption c clauses effects trailing ∧
        t' = { t with seen := t.seen ++ [c.name] }.extend [] clauses effects trailing := by
      split at h
      · rename_i hencrypted
        exact draftEncrypted?_eq_ok h hencrypted
      · rename_i hplain
        exact draftPlain?_eq_ok h (by simpa using hplain)
    obtain ⟨clauses, effects, trailing, hdrafts, rfl⟩ := hsplit
    exact ⟨clauses, effects, trailing, hdrafts, by simp [TableDraft.extend]⟩

/-- All columns are drafted one after the other, and none is drafted twice. -/
theorem foldlM_draftColumn?_eq_ok {columns : List ColumnDefinition}
    (h : columns.foldlM (p.draftColumn? table encryption) t = .ok t') (hseen : t.seen.Nodup) :
    (t.seen ++ columns.map ColumnDefinition.name).Nodup ∧
    ∃ parts : List (List ColumnClause × List CatalogEffect × List SchemaStep),
      List.Forall₂ (fun c part => Drafts p table encryption c part.1 part.2.1 part.2.2) columns parts ∧
      t' = t.extend (columns.map ColumnDefinition.name) (parts.flatMap (·.1)) (parts.flatMap (·.2.1))
        (parts.flatMap (·.2.2)) := by
  induction columns generalizing t with
  | nil =>
      cases h
      exact ⟨by simpa using hseen, [], .nil, by simp [TableDraft.extend]⟩
  | cons c columns ih =>
      simp only [List.foldlM_cons, Except.bind_eq_ok] at h
      obtain ⟨t₁, hfirst, hrest⟩ := h
      obtain ⟨hnew, clauses, effects, trailing, hdrafts, rfl⟩ := draftColumn?_eq_ok hfirst
      have hseen₁ : (t.seen ++ [c.name]).Nodup := List.concat_eq_append ▸ hseen.concat hnew
      obtain ⟨hnodup, parts, hparts, rfl⟩ := ih hrest hseen₁
      refine ⟨by simpa [TableDraft.extend] using hnodup, ⟨clauses, effects, trailing⟩ :: parts,
        .cons hdrafts hparts, ?_⟩
      simp [TableDraft.extend_extend]

/-- A column for a time is added where nothing of its name is. -/
theorem timestamp?_eq_ok {time : String} (h : t.timestamp? time = .ok t') :
    (time ∈ t.seen ∧ t' = t) ∨
    (time ∉ t.seen ∧ ∃ clause, ColumnClause.timestamp? time = .ok clause ∧
      t' = t.extend [time] [clause] [] []) := by
  unfold TableDraft.timestamp? at h
  split at h
  · rename_i hseen
    cases h
    exact .inl ⟨by simpa using hseen, rfl⟩
  · rename_i hseen
    simp only [Except.bind_eq_ok, Except.pure_eq_ok] at h
    obtain ⟨clause, hclause, rfl⟩ := h
    exact .inr ⟨by simpa using hseen, clause, hclause, by simp [TableDraft.extend, TableDraft.define]⟩

/-- The times are drafted one after the other, but for those that there are. -/
theorem foldlM_timestamp?_eq_ok {times : List String} (htimes : times.Nodup)
    (h : times.foldlM TableDraft.timestamp? t = .ok t') :
    ∃ clauses, List.Forall₂ (fun time clause => ColumnClause.timestamp? time = .ok clause)
        (times.filter (· ∉ t.seen)) clauses ∧
      t' = t.extend (times.filter (· ∉ t.seen)) clauses [] [] := by
  induction times generalizing t with
  | nil =>
      cases h
      exact ⟨[], .nil, by simp [TableDraft.extend]⟩
  | cons time times ih =>
      obtain ⟨htime, htimes⟩ := List.nodup_cons.mp htimes
      simp only [List.foldlM_cons, Except.bind_eq_ok] at h
      obtain ⟨t₁, hfirst, hrest⟩ := h
      obtain ⟨clauses, hclauses, rfl⟩ := ih htimes hrest
      rcases timestamp?_eq_ok hfirst with ⟨hseen, rfl⟩ | ⟨hseen, clause, hclause, rfl⟩
      · rw [List.filter_cons_of_neg (by simpa using hseen)]
        exact ⟨clauses, hclauses, rfl⟩
      · have hothers : times.filter (· ∉ (t.extend [time] [clause] [] []).seen) =
            times.filter (· ∉ t.seen) := by
          refine List.filter_congr fun other hother => ?_
          have hne : other ≠ time := fun heq => htime (heq ▸ hother)
          simp [TableDraft.extend, hne]
        rw [hothers] at hclauses ⊢
        rw [List.filter_cons_of_pos (by simpa using hseen)]
        exact ⟨clause :: clauses, .cons hclause hclauses, by simp [TableDraft.extend_extend]⟩

theorem exists_drafted {b : TableBlueprint} {steps : List SchemaStep} (h : p.createTable? table b = .ok steps) :
    ∃ name drafted timed, name.text = table ∧
      b.columns.foldlM (p.draftColumn? table b.encryption) {} = .ok drafted ∧
      b.times.foldlM TableDraft.timestamp? drafted = .ok timed ∧
      steps = ⟨.createTable name timed.clauses,
        timed.effects ++ if b.softDelete then [.enableSoftDelete defaultSoftDelete] else []⟩ :: timed.trailing := by
  unfold createTable? at h
  split at h
  · cases h
  · simp only [Except.bind_eq_ok] at h
    obtain ⟨name, hname, drafted, hdrafted, h⟩ := h
    have hsteps : ∃ timed, b.times.foldlM TableDraft.timestamp? drafted = .ok timed ∧
        steps = ⟨.createTable name timed.clauses,
          timed.effects ++ if b.softDelete then [.enableSoftDelete defaultSoftDelete] else []⟩ ::
            timed.trailing := by
      simp only [TableBlueprint.times, List.foldlM_append]
      cases hstamps : b.timestamps <;> cases hsoft : b.softDelete <;>
        simp only [hstamps, hsoft, Bool.false_eq_true, if_true, if_false, pure_bind, Except.bind_eq_ok,
          Except.pure_eq_ok] at h
      · subst h
        exact ⟨drafted, rfl, by simp⟩
      · obtain ⟨timed, htimed, rfl⟩ := h
        exact ⟨timed, by simp [htimed], rfl⟩
      · obtain ⟨created, hcreated, timed, htimed, rfl⟩ := h
        exact ⟨timed, by simp [hcreated, htimed], by simp⟩
      · obtain ⟨created, hcreated, updated, hupdated, timed, htimed, rfl⟩ := h
        exact ⟨timed, by simp [hcreated, hupdated, htimed], rfl⟩
    obtain ⟨timed, htimed, rfl⟩ := hsteps
    exact ⟨name, drafted, timed, Identifier.of?_eq_ok hname, hdrafted, htimed, rfl⟩

/-- The steps that create a table, part by part: what each column brings, and then the times. -/
theorem createTable?_eq_ok {b : TableBlueprint} {steps : List SchemaStep}
    (h : p.createTable? table b = .ok steps) :
    ∃ (name : Identifier) (parts : List (List ColumnClause × List CatalogEffect × List SchemaStep))
      (times : List ColumnClause), name.text = table ∧ b.named.Nodup ∧
      List.Forall₂ (fun c part => Drafts p table b.encryption c part.1 part.2.1 part.2.2) b.columns parts ∧
      List.Forall₂ (fun time clause => ColumnClause.timestamp? time = .ok clause) b.addedTimes times ∧
      steps = ⟨.createTable name (parts.flatMap (·.1) ++ times), parts.flatMap (·.2.1) ++
          if b.softDelete then [.enableSoftDelete defaultSoftDelete] else []⟩ :: parts.flatMap (·.2.2) := by
  obtain ⟨name, drafted, timed, hname, hdrafted, htimed, rfl⟩ := exists_drafted h
  obtain ⟨hnodup, parts, hparts, rfl⟩ := foldlM_draftColumn?_eq_ok hdrafted List.nodup_nil
  obtain ⟨times, htimes, rfl⟩ := foldlM_timestamp?_eq_ok b.nodup_times htimed
  exact ⟨name, parts, times, hname, hnodup, hparts, htimes, by simp [TableDraft.extend]⟩

theorem name_of_timestamp? {column : String} {clause : ColumnClause}
    (h : ColumnClause.timestamp? column = .ok clause) : clause.name.text = column := by
  simp only [ColumnClause.timestamp?, Except.bind_eq_ok, Except.pure_eq_ok] at h
  obtain ⟨n, hn, rfl⟩ := h
  exact Identifier.of?_eq_ok hn

end SchemaPlanner

end TableGate
