import TableGate.Proofs.Query.Parameters
import TableGate.Proofs.Query.SafeText
import TableGate.Proofs.Query.Writes
import TableGate.Proofs.Sql.CommonText

/-! # Queries for every dialect

A query without full-text search, values inside JSON columns, raw fragments and offsets without limits is
understood in the same way in every dialect, and so is each write whose rows have columns. The statements
have the same parameters, and they differ in the dialects' own tokens only. -/

namespace TableGate

open Template

variable {d : Dialect} {policy : RawPolicy}

/-! ## Portable queries -/

/-- Nothing in the clauses is written differently from dialect to dialect. -/
def SelectClauses.Portable (c : SelectClauses) : Prop :=
  c.fullText.isNone ∧ c.json.isEmpty ∧ (c.offset.isSome → c.limit.isSome)

instance (c : SelectClauses) : Decidable c.Portable :=
  inferInstanceAs (Decidable (_ ∧ _ ∧ (_ → _)))

mutual

/-- The clauses of a query and of the queries inside it, at every depth. -/
def QuerySpec.levels : QuerySpec → List SelectClauses
  | .mk c union ctes => c :: (union.levels ++ ctes.levels)

def UnionSpec.levels : UnionSpec → List SelectClauses
  | .none => []
  | .member _ query _ => query.levels

def CteSpecs.levels : CteSpecs → List SelectClauses
  | .nil => []
  | .raw _ _ rest => rest.levels
  | .query _ _ query rest => query.levels ++ rest.levels

end

/-- The query has neither raw fragments nor clauses that are written differently from dialect to dialect. -/
def QuerySpec.Portable (q : QuerySpec) : Prop :=
  q.rawFragments = [] ∧ ∀ c ∈ q.levels, c.Portable

instance (q : QuerySpec) : Decidable q.Portable :=
  inferInstanceAs (Decidable (_ ∧ _))

/-! ## The same tree in every dialect -/

theorem SelectClauses.columns?_of_portable {c : SelectClauses} (h : c.Portable) :
    c.columns? ⟨d, policy⟩ = c.columns? ⟨.sqlite, policy⟩ := by
  have hjson : c.json = [] := List.isEmpty_iff.mp h.2.1
  simp [columns?, hjson]

theorem SelectClauses.search?_of_portable {c : SelectClauses} (h : c.Portable) :
    c.search? d = c.search? .sqlite := by
  have hsearch : c.fullText = none := Option.isNone_iff_eq_none.mp h.1
  simp [search?, hsearch]

theorem SelectClauses.body?_of_portable {c : SelectClauses} (h : c.Portable) (scope : Scope)
    (table : String) : c.body? ⟨d, policy⟩ scope table = c.body? ⟨.sqlite, policy⟩ scope table := by
  have hsearch := SelectClauses.search?_of_portable (d := d) h
  rw [body?, body?, SelectClauses.columns?_of_portable h, hsearch]

mutual

/-- A query with portable clauses is understood in the same way in every dialect, or not understood for the
same reason. -/
theorem QuerySpec.select?_of_portable : ∀ (q : QuerySpec) (scope : Scope) (table : String),
    (∀ c ∈ q.levels, c.Portable) →
      q.select? ⟨d, policy⟩ scope table = q.select? ⟨.sqlite, policy⟩ scope table
  | .mk c union ctes => by
      intro scope table h
      simp only [QuerySpec.levels, List.forall_mem_cons, List.forall_mem_append] at h
      rw [QuerySpec.select?, QuerySpec.select?, SelectClauses.body?_of_portable h.1,
        QuerySpec.unionMembers?_of_portable union _ h.2.1, QuerySpec.cteClauses?_of_portable ctes _ h.2.2]

theorem QuerySpec.unionMembers?_of_portable : ∀ (union : UnionSpec) (scope : Scope),
    (∀ c ∈ union.levels, c.Portable) →
      QuerySpec.unionMembers? ⟨d, policy⟩ scope union = QuerySpec.unionMembers? ⟨.sqlite, policy⟩ scope union
  | .none => fun _ _ => rfl
  | .member table (.mk c union ctes) all => by
      intro scope h
      simp only [UnionSpec.levels, QuerySpec.levels, List.forall_mem_cons, List.forall_mem_append] at h
      cases ctes with
      | nil =>
          rw [QuerySpec.unionMembers?, QuerySpec.unionMembers?, SelectClauses.body?_of_portable h.1,
            QuerySpec.unionMembers?_of_portable union _ h.2.1]
      | raw | query => rfl

theorem QuerySpec.cteClauses?_of_portable : ∀ (ctes : CteSpecs) (scope : Scope),
    (∀ c ∈ ctes.levels, c.Portable) →
      QuerySpec.cteClauses? ⟨d, policy⟩ scope ctes = QuerySpec.cteClauses? ⟨.sqlite, policy⟩ scope ctes
  | .nil => fun _ _ => rfl
  | .raw name fragment rest => by
      intro scope h
      rw [QuerySpec.cteClauses?, QuerySpec.cteClauses?, QuerySpec.cteClauses?_of_portable rest scope h]
  | .query name table query rest => by
      intro scope h
      simp only [CteSpecs.levels, List.forall_mem_append] at h
      rw [QuerySpec.cteClauses?, QuerySpec.cteClauses?, QuerySpec.select?_of_portable query scope table h.1,
        QuerySpec.cteClauses?_of_portable rest scope h.2]

end

/-! ## The same template in every dialect -/

theorem Dialect.limitClause_of_portable {c : SelectClauses} (h : c.Portable) :
    d.limitClause (c.limit.map UInt64.toNat) (c.offset.map UInt64.toNat) =
      Dialect.sqlite.limitClause (c.limit.map UInt64.toNat) (c.offset.map UInt64.toNat) := by
  have hlimited := h.2.2
  cases hlimit : c.limit with
  | some limit => cases c.offset <;> rfl
  | none =>
      cases hoffset : c.offset with
      | none => rfl
      | some offset => simp [hlimit, hoffset] at hlimited

mutual

/-- The template of a select statement that a query with portable clauses was understood as. -/
theorem QuerySpec.template_of_portable {k : Compiler} : ∀ (q : QuerySpec) (scope : Scope) (table : String)
    (s : Select), q.select? k scope table = .ok s → (∀ c ∈ q.levels, c.Portable) →
      s.template d = s.template .sqlite
  | .mk c union ctes => by
      intro scope table s h hportable
      simp only [QuerySpec.levels, List.forall_mem_cons, List.forall_mem_append] at hportable
      simp only [QuerySpec.select?, Except.bind_eq_ok, Except.pure_eq_ok] at h
      obtain ⟨clauses, hclauses, first, -, rest, -, order, -, rfl⟩ := h
      rw [Select.template, Select.template, Dialect.limitClause_of_portable hportable.1,
        (CteSpecs.template_of_portable ctes _ clauses hclauses hportable.2.2).1]

/-- The same of common table expressions, where they open a statement and where they follow another one. -/
theorem CteSpecs.template_of_portable {k : Compiler} : ∀ (ctes : CteSpecs) (scope : Scope)
    (clauses : CteClauses), QuerySpec.cteClauses? k scope ctes = .ok clauses →
      (∀ c ∈ ctes.levels, c.Portable) →
        Select.withTemplate d clauses = Select.withTemplate .sqlite clauses ∧
          Select.moreCtes d clauses = Select.moreCtes .sqlite clauses
  | .nil => by
      intro scope clauses h _
      cases h
      exact ⟨rfl, rfl⟩
  | .raw name fragment rest => by
      intro scope clauses h hportable
      simp only [QuerySpec.cteClauses?, Except.bind_eq_ok, Except.pure_eq_ok] at h
      obtain ⟨label, -, checked, -, more, hmore, rfl⟩ := h
      have hrest := (CteSpecs.template_of_portable rest scope more hmore hportable).2
      exact ⟨by rw [Select.withTemplate, Select.withTemplate, hrest],
        by rw [Select.moreCtes, Select.moreCtes, hrest]⟩
  | .query name table query rest => by
      intro scope clauses h hportable
      simp only [CteSpecs.levels, List.forall_mem_append] at hportable
      simp only [QuerySpec.cteClauses?, Except.bind_eq_ok, Except.pure_eq_ok] at h
      obtain ⟨label, -, body, hbody, more, hmore, rfl⟩ := h
      have hquery := QuerySpec.template_of_portable query scope table body hbody hportable.1
      have hrest := (CteSpecs.template_of_portable rest scope more hmore hportable.2).2
      exact ⟨by rw [Select.withTemplate, Select.withTemplate, hquery, hrest],
        by rw [Select.moreCtes, Select.moreCtes, hquery, hrest]⟩

end

/-! ## Select statements -/

theorem QuerySpec.common_of_portable {q : QuerySpec} (hq : q.Portable) {scope : Scope} {table : String}
    {s : Select} (h : q.select? ⟨.sqlite, policy⟩ scope table = .ok s) (d : Dialect) :
    Common d (s.template .sqlite) := by
  have hplain : Template.Plain (s.template .sqlite) := by
    have hvetted : Vetted (fun _ => False) (s.template .sqlite) :=
      QuerySpec.vetted q scope table s h (by simp [hq.1])
    exact hvetted.plain
  have hcarries : Carries .postgres q.boundValues (s.template .sqlite) := by
    have hselect := (QuerySpec.select?_of_portable (d := .postgres) q scope table hq.2).trans h
    have hpostgres := QuerySpec.carries q scope table s hselect (by simp [hq.1])
    rwa [QuerySpec.template_of_portable q scope table s h hq.2] at hpostgres
  exact hplain.common hcarries d

theorem Compiler.selectScoped_of_portable {q : QuerySpec} (hq : q.Portable) (table : String)
    (scope : Scope) :
    (Compiler.selectScoped ⟨d, policy⟩ table q scope).map (Statement.common d) =
      Compiler.selectScoped ⟨.sqlite, policy⟩ table q scope := by
  rw [Compiler.selectScoped, Compiler.selectScoped, QuerySpec.select?_of_portable q scope table hq.2,
    Except.map_bind]
  cases hselect : q.select? ⟨.sqlite, policy⟩ scope table with
  | error e => rfl
  | ok s =>
      have hcommon := QuerySpec.common_of_portable hq hselect d
      rw [Except.ok_bind, Except.ok_bind, Except.map_pure,
        QuerySpec.template_of_portable q scope table s hselect hq.2, hcommon.common_statement]

/-! ## Writes -/

theorem Reference.common_of_of? {s : String} {r : Reference} (h : Reference.of? s = .ok r) (d : Dialect) :
    Common d r.template :=
  (Reference.plain_of_of? h).common (Reference.carries h) d

theorem Condition.common_whereTemplate {cs : List Condition} {chain : Chain}
    (h : Condition.chain? .parameter cs = .ok chain) (d : Dialect) :
    Common d (Write.whereTemplate chain) ∧ Opens d (Write.whereTemplate chain) := by
  have hplain := Predicate.plain_chain chain (Condition.regular_of_chain? h)
  have hchain := hplain.common (Condition.carries_chain cs chain h).1 d
  unfold Write.whereTemplate
  split
  · exact ⟨common_nil, opens_nil⟩
  · exact ⟨hchain.text (by decide), opens_text (by decide)⟩

theorem Write.common_assignments (d : Dialect) (assignments : List (Identifier × Assigned)) :
    Common d (Write.assignmentTemplate assignments) := by
  refine Common.joined (by decide) (by decide) fun t ht => ?_
  obtain ⟨⟨n, a⟩, -, rfl⟩ := List.mem_map.mp ht
  have hassigned : Common d a.template := by
    cases a with
    | value v => exact common_nil.param opens_nil
    | now | null => exact common_nil.text (by decide)
  exact (hassigned.text (by decide)).name

theorem Write.common_update {table : Reference} {chain : Chain} (htable : Common d table.template)
    (hwhere : Common d (whereTemplate chain) ∧ Opens d (whereTemplate chain))
    (assignments : List (Identifier × Assigned)) :
    Common d ((Write.update table assignments chain).template .sqlite) := by
  have hset := (Write.common_assignments d assignments).text (x := " SET ") (by decide)
  have hall := (htable.append hset (opens_text (by decide))).append hwhere.1 hwhere.2
  exact hall.text (by decide)

theorem Write.common_delete {table : Reference} {chain : Chain} (htable : Common d table.template)
    (hwhere : Common d (whereTemplate chain) ∧ Opens d (whereTemplate chain)) :
    Common d ((Write.delete table chain).template .sqlite) :=
  (htable.append hwhere.1 hwhere.2).text (by decide)

theorem Insert.common_names (d : Dialect) (names : List Identifier) :
    Common d (Insert.nameTemplate names) := by
  refine Common.joined (by decide) (by decide) fun t ht => ?_
  obtain ⟨n, -, rfl⟩ := List.mem_map.mp ht
  exact common_nil.name

theorem Insert.common_tuple (d : Dialect) (values : List Value) :
    Common d (Insert.tupleTemplate values) := by
  have hvalues : Common d (joined ", " (values.map fun v => [.param v])) := by
    refine Common.joined (by decide) (by decide) fun t ht => ?_
    obtain ⟨v, -, rfl⟩ := List.mem_map.mp ht
    exact common_nil.param opens_nil
  have hclosed := hvalues.append (common_nil.text (x := ")") (by decide)) (opens_text (by decide))
  exact hclosed.text (by decide)

theorem Insert.common {i : Insert} (htable : Common d i.table.template) (hcolumns : i.columns ≠ []) :
    Common d (i.template .sqlite) := by
  have htuples : Common d (joined ", " (i.tuples.map Insert.tupleTemplate)) := by
    refine Common.joined (by decide) (by decide) fun t ht => ?_
    obtain ⟨values, -, rfl⟩ := List.mem_map.mp ht
    exact Insert.common_tuple d values
  have hnames := (Insert.common_names d i.columns).text (x := " (") (by decide)
  have hopened := htable.append hnames (opens_text (by decide))
  have hall := hopened.append (htuples.text (x := ") VALUES ") (by decide)) (opens_text (by decide))
  rw [Insert.template, if_neg (by simpa using hcolumns)]
  simpa using hall.text (x := "INSERT INTO ") (by decide)

/-- An insertion that was made has columns, unless it is of a single row without columns. -/
theorem Insert.of_insertRows? {table : String} {rows : List Row} {i : Insert}
    (h : Write.insertRows? table rows = .ok i) (hrows : rows.map NameMap.names ≠ [[]]) :
    Reference.of? table = .ok i.table ∧ i.columns ≠ [] := by
  obtain ⟨first, rest, rfl, -, hr, halone, hcolumns, -⟩ := Write.insertRows?_eq_ok.mp h
  refine ⟨hr, fun hnone => hrows ?_⟩
  have hnames : first.names = [] := by rw [← hcolumns, hnone, List.map_nil]
  rw [halone hnames, List.map_singleton, hnames]

/-- The template of the write is the same in the dialect as in SQLite, and it is printed in the common
text. -/
def Write.Portable (d : Dialect) (w : Write) : Prop :=
  w.template d = w.template .sqlite ∧ Template.Common d (w.template .sqlite)

theorem Write.portable_of_insertOf? {table : String} {rows : List Row} {w : Write}
    (hrows : rows.map NameMap.names ≠ [[]]) (h : Write.insertOf? table rows = .ok w) : w.Portable d := by
  obtain ⟨i, hi, rfl⟩ := Except.map_eq_ok.mp h
  obtain ⟨hr, hcolumns⟩ := Insert.of_insertRows? hi hrows
  have hnonempty : ¬i.columns.isEmpty = true := by simpa using hcolumns
  refine ⟨?_, Insert.common (Reference.common_of_of? hr d) hcolumns⟩
  rw [Write.template, Write.template, Insert.template, Insert.template, if_neg hnonempty, if_neg hnonempty]

theorem Write.portable_of_updateOf? {table : String} {values : Row} {cs : List Condition} {w : Write}
    (h : Write.updateOf? table values cs = .ok w) : w.Portable d := by
  unfold Write.updateOf? at h
  split at h
  · cases h
  · simp only [Except.bind_eq_ok, Except.pure_eq_ok] at h
    obtain ⟨assignments, -, r, hr, chain, hchain, rfl⟩ := h
    exact ⟨rfl, Write.common_update (Reference.common_of_of? hr d)
      (Condition.common_whereTemplate hchain d) assignments⟩

theorem Write.portable_of_deleteOf? {table : String} {cs : List Condition} {w : Write}
    (h : Write.deleteOf? table cs = .ok w) : w.Portable d := by
  simp only [deleteOf?, Except.bind_eq_ok, Except.pure_eq_ok] at h
  obtain ⟨r, hr, chain, hchain, rfl⟩ := h
  exact ⟨rfl, Write.common_delete (Reference.common_of_of? hr d) (Condition.common_whereTemplate hchain d)⟩

theorem Write.portable_of_softDeleteOf? {table column : String} {cs : List Condition} {w : Write}
    (h : Write.softDeleteOf? table column cs = .ok w) : w.Portable d := by
  simp only [softDeleteOf?, Except.bind_eq_ok, Except.pure_eq_ok] at h
  obtain ⟨n, -, r, hr, chain, hchain, rfl⟩ := h
  exact ⟨rfl, Write.common_update (Reference.common_of_of? hr d)
    (Condition.common_whereTemplate hchain d) [(n, .now)]⟩

theorem Write.portable_of_restoreOf? {table column : String} {cs : List Condition} {w : Write}
    (h : Write.restoreOf? table column cs = .ok w) : w.Portable d := by
  simp only [restoreOf?, Except.bind_eq_ok, Except.pure_eq_ok] at h
  obtain ⟨n, -, r, hr, chain, hchain, rfl⟩ := h
  exact ⟨rfl, Write.common_update (Reference.common_of_of? hr d)
    (Condition.common_whereTemplate hchain d) [(n, .null)]⟩

theorem Compiler.write_of_portable {r : Except Fault Write} (hr : ∀ w, r = .ok w → w.Portable d) :
    (Compiler.write ⟨d, policy⟩ r).map (Statement.common d) = Compiler.write ⟨.sqlite, policy⟩ r := by
  cases r with
  | error e => rfl
  | ok w =>
      obtain ⟨htemplate, hcommon⟩ := hr w rfl
      have hstatement := hcommon.common_statement
      rw [← htemplate] at hstatement
      exact congrArg Except.ok (hstatement.trans (by rw [htemplate]; rfl))

/-! ## Statements in the common form -/

/-- In every dialect the same portable queries, updates, deletions and restorations are refused, for the same
reason, and the statements of the others have the same parameters and, in the common form, the same text. So it
is with insertions, unless a single row without columns is inserted. -/
theorem Compiler.common_statements (policy : RawPolicy) (d : Dialect) :
    let k : Compiler := ⟨d, policy⟩
    let base : Compiler := ⟨.sqlite, policy⟩
    (∀ table q scope, q.Portable →
      (k.selectScoped table q scope).map (Statement.common d) = base.selectScoped table q scope) ∧
    (∀ table values cs,
      (k.update table values cs).map (Statement.common d) = base.update table values cs) ∧
    (∀ table cs, (k.delete table cs).map (Statement.common d) = base.delete table cs) ∧
    (∀ table column cs,
      (k.softDelete table column cs).map (Statement.common d) = base.softDelete table column cs) ∧
    (∀ table column cs,
      (k.restore table column cs).map (Statement.common d) = base.restore table column cs) ∧
    ∀ table rows, rows.map NameMap.names ≠ [[]] →
      (k.insert table rows).map (Statement.common d) = base.insert table rows := by
  intro k base
  refine ⟨fun table q scope hq => selectScoped_of_portable hq table scope, ?_, ?_, ?_, ?_, ?_⟩
  · exact fun table values cs => write_of_portable fun w => Write.portable_of_updateOf?
  · exact fun table cs => write_of_portable fun w => Write.portable_of_deleteOf?
  · exact fun table column cs => write_of_portable fun w => Write.portable_of_softDeleteOf?
  · exact fun table column cs => write_of_portable fun w => Write.portable_of_restoreOf?
  · exact fun table rows hrows => write_of_portable fun w => Write.portable_of_insertOf? hrows

/-- A query with a limited common table expression in front, a filtered join inside and a united query behind,
and rows of which one binds a list. -/
theorem Compiler.common_statements_nested :
    let recent := ((QuerySpec.ofConditions [.eq "day" (.int 7)]).limit 5).offset 2
    let join := (JoinSpec.ofPair .left "recent" "id" "user_id").filter (.eq "kind" (.text "$1"))
    let main := ((QuerySpec.empty.select [.count "*" none]).join join).filter (.eq "name" (.text "ada"))
    let q := (main.unionWith "archive" (QuerySpec.ofConditions [.eq "id" (.int 9)]) true).withQuery
      "recent" "logins" recent
    let rows : List Row :=
      [.ofList [("id", .int 1), ("tags", .array [])], .ofList [("id", .int 2), ("tags", .null)]]
    let scope : Scope := fun _ => some "deleted_at"
    q.Portable ∧ rows.map NameMap.names ≠ [[]] ∧
      (∃ s, Compiler.selectScoped ⟨.sqlite, .guarded⟩ "users" q scope = .ok s ∧
        (Compiler.selectScoped ⟨.mysql, .guarded⟩ "users" q scope).map (Statement.common .mysql) = .ok s ∧
        (Compiler.selectScoped ⟨.postgres, .guarded⟩ "users" q scope).map (Statement.common .postgres) = .ok s) ∧
      ∃ s, Compiler.insert ⟨.sqlite, .guarded⟩ "users" rows = .ok s ∧
        (Compiler.insert ⟨.postgres, .guarded⟩ "users" rows).map (Statement.common .postgres) = .ok s := by
  intro recent join main q rows scope
  have hq : q.Portable := by decide
  have hrows : rows.map NameMap.names ≠ [[]] := by decide
  obtain ⟨s, hs⟩ : ∃ s, Compiler.selectScoped ⟨.sqlite, .guarded⟩ "users" q scope = .ok s :=
    Except.exists_of_isOk (by decide)
  obtain ⟨i, hi⟩ : ∃ s, Compiler.insert ⟨.sqlite, .guarded⟩ "users" rows = .ok s :=
    Except.exists_of_isOk (by decide)
  obtain ⟨hmysql, -⟩ := Compiler.common_statements .guarded .mysql
  obtain ⟨hpostgres, -, -, -, -, hinsert⟩ := Compiler.common_statements .guarded .postgres
  exact ⟨hq, hrows, ⟨s, hs, (hmysql _ q scope hq).trans hs, (hpostgres _ q scope hq).trans hs⟩,
    i, hi, (hinsert _ rows hrows).trans hi⟩

end TableGate
