import TableGate.Proofs.Query.Clauses
import TableGate.Proofs.Query.SelectText
import TableGate.Proofs.Query.Understood
import TableGate.Proofs.Sql.Reference

/-! # What a scope adds to a query

The text that leaves out soft-deleted rows is that of the query as it stands, with one test more for each
appearance of a table that the scope knows: behind the condition of its join, or in WHERE behind what the query
demands itself. Below a query that asks for soft-deleted rows too, nothing is added. -/

namespace TableGate

open Template

/-- The test that a column is null: the bare column, or the column under the name that the query has for
its table. -/
inductive NullTest (r : Reference) (column : String) : Bool → Atom → Prop
  | bare {n : Identifier} (hn : n.text = column) :
      NullTest r column false (.notDeleted ⟨.ofName n, none⟩)
  | qualified {names : List Identifier} {p : Path} {label : Option Identifier}
      (hnames : r.ownNames = some names) (hcolumn : Reference.of? column = .ok ⟨.path p, label⟩) :
      NullTest r column true (.notDeleted ⟨.path (p.under names), label⟩)

/-- The test for a table: there is one exactly if the scope has a column for the table without its
alias. -/
inductive Scope.AddsTest (scope : Scope) (table : String) (r : Reference) (qualified : Bool) :
    Option Atom → Prop
  | absent (hscope : scope (Text.splitAlias table).1 = .none) : scope.AddsTest table r qualified .none
  | present {column : String} {a : Atom} (hscope : scope (Text.splitAlias table).1 = some column)
      (htest : NullTest r column qualified a) : scope.AddsTest table r qualified (some a)

/-- The text of the test for a table, if there is one. -/
inductive Scope.PrintsTest (scope : Scope) (d : Dialect) (table : String) (r : Reference) (qualified : Bool) :
    Option String → Prop
  | absent (hscope : scope (Text.splitAlias table).1 = .none) : scope.PrintsTest d table r qualified .none
  | present {column : String} {tested : Reference} (hscope : scope (Text.splitAlias table).1 = some column)
      (htest : NullTest r column qualified (.notDeleted tested)) :
      scope.PrintsTest d table r qualified (some (tested.template.print d ++ " IS NULL"))

/-- The text of joins with the tests for their tables. That of a cross join is left for the filter of the SELECT, and
any other follows the condition of its join. -/
inductive Scope.AddsToJoins (scope : Scope) (d : Dialect) :
    ℕ → List JoinSpec → List JoinClause → String → List String → Prop
  | nil {n : ℕ} : scope.AddsToJoins d n [] [] "" []
  | cross {n : ℕ} {j : JoinSpec} {js : List JoinSpec} {r : Reference} {test : Option String}
      {us : List JoinClause} {text : String} {tests : List String} (hkind : j.joinType = .cross)
      (htable : Reference.of? j.table = .ok r) (htest : scope.PrintsTest d j.table r true test)
      (hrest : scope.AddsToJoins d n js us text tests) :
      scope.AddsToJoins d n (j :: js) (.cross r :: us) (" CROSS JOIN " ++ r.template.print d ++ text)
        (test.toList ++ tests)
  | on {n : ℕ} {j : JoinSpec} {js : List JoinSpec} {r : Reference} {test : Option String}
      {compared filters : Chain} {us : List JoinClause} {text : String} {tests : List String}
      (hkind : j.joinType ≠ .cross) (htable : Reference.of? j.table = .ok r)
      (htest : scope.PrintsTest d j.table r true test)
      (hrest : scope.AddsToJoins d (after n (JoinClause.condition compared filters .none)) js us text tests) :
      scope.AddsToJoins d n (j :: js) (.on j.joinType r compared filters .none :: us)
        (" " ++ j.joinType.sql ++ " " ++ r.template.print d ++ " ON " ++
          " AND ".intercalate (printFrom d n (JoinClause.condition compared filters .none) :: test.toList) ++ text)
        tests

/-- What a filter demands itself. Its chain stands in parentheses if it joins several predicates and anything
follows it. -/
def Filter.partsBefore (f : Filter) (tests : List String) : List Template :=
  (if f.given.isEmpty then [] else [Chain.enclosed f.given (!f.also.isEmpty || !tests.isEmpty)]) ++
    f.also.map Atom.template

/-- The text of a filter with tests behind what it demands itself. -/
def Filter.textWith (d : Dialect) (n : ℕ) (f : Filter) (tests : List String) : String :=
  match printEach d n (f.partsBefore tests) ++ tests with
  | [] => ""
  | parts => " WHERE " ++ " AND ".intercalate parts

/-- The text of a single SELECT with the tests for its tables; those for its first table and for cross joins are in
its filter. -/
inductive Scope.AddsToBody (scope : Scope) (d : Dialect) (n : ℕ) (table : String) (c : SelectClauses)
    (u : SelectBody) : String → Prop
  | intro {test : Option String} {joins : String} {tests : List String}
      (htable : Reference.of? table = .ok u.source)
      (htest : scope.PrintsTest d table u.source (!c.joins.isEmpty) test)
      (hjoins : scope.AddsToJoins d (after n u.opening) c.joins u.joins joins tests) :
      scope.AddsToBody d n table c u
        (printFrom d n u.opening ++ joins ++
          u.filter.textWith d (after n (u.opening ++ SelectBody.joinTemplates u.joins)) (test.toList ++ tests) ++
          printFrom d (after n (u.opening ++ SelectBody.joinTemplates u.joins ++ u.filter.template)) u.closing)

mutual

/-- The text of a query with the tests for its tables, at every depth. A query for soft-deleted rows too has
none. -/
inductive Scope.AddsToQuery (scope : Scope) (d : Dialect) : ℕ → String → QuerySpec → Select → String → Prop
  | trashed {n : ℕ} {table : String} {c : SelectClauses} {union : UnionSpec} {ctes : CteSpecs} {u : Select}
      (hc : c.withTrashed = true) :
      scope.AddsToQuery d n table (.mk c union ctes) u (printFrom d n (u.template d))
  | live {n : ℕ} {table : String} {c : SelectClauses} {union : UnionSpec} {ctes : CteSpecs}
      {cu : CteClauses} {u : SelectBody} {us : List (Bool × SelectBody)} {order : List OrderTerm}
      {limit offset : Option UInt64} {before first rest : String} (hc : c.withTrashed = false)
      (hctes : scope.AddsToCtes d false n ctes cu before)
      (hfirst : scope.AddsToBody d (after n (Select.withTemplate d cu)) table c u first)
      (hrest : scope.AddsToUnion d (after n (Select.withTemplate d cu ++ u.template)) union us rest) :
      scope.AddsToQuery d n table (.mk c union ctes) (.mk cu u us order limit offset)
        (before ++ first ++ rest ++
          printFrom d (after n (Select.withTemplate d cu ++ u.template ++ Select.restTemplate us))
            (Select.orderTemplate order) ++
          d.limitClause (limit.map UInt64.toNat) (offset.map UInt64.toNat))

inductive Scope.AddsToUnion (scope : Scope) (d : Dialect) :
    ℕ → UnionSpec → List (Bool × SelectBody) → String → Prop
  | none {n : ℕ} : scope.AddsToUnion d n .none [] ""
  | trashed {n : ℕ} {table : String} {c : SelectClauses} {union : UnionSpec} {ctes : CteSpecs} {all : Bool}
      {rest : List (Bool × SelectBody)} (hc : c.withTrashed = true) :
      scope.AddsToUnion d n (.member table (.mk c union ctes) all) rest
        (printFrom d n (Select.restTemplate rest))
  | live {n : ℕ} {table : String} {c : SelectClauses} {union : UnionSpec} {ctes : CteSpecs} {all : Bool}
      {u : SelectBody} {us : List (Bool × SelectBody)} {first rest : String} (hc : c.withTrashed = false)
      (hfirst : scope.AddsToBody d n table c u first)
      (hrest : scope.AddsToUnion d (after n u.template) union us rest) :
      scope.AddsToUnion d n (.member table (.mk c union ctes) all) ((all, u) :: us)
        ((if all then " UNION ALL " else " UNION ") ++ first ++ rest)

inductive Scope.AddsToCtes (scope : Scope) (d : Dialect) : Bool → ℕ → CteSpecs → CteClauses → String → Prop
  | nil {more : Bool} {n : ℕ} : scope.AddsToCtes d more n .nil .nil (if more then " " else "")
  | raw {more : Bool} {n : ℕ} {name fragment checked : String} {label : Identifier} {rest : CteSpecs}
      {us : CteClauses} {text : String} (hrest : scope.AddsToCtes d true n rest us text) :
      scope.AddsToCtes d more n (.raw name fragment rest) (.raw label checked us)
        (CteClauses.opening more ++ d.quoted label ++ " AS (" ++ checked ++ ")" ++ text)
  | query {more : Bool} {n : ℕ} {name table : String} {label : Identifier} {q : QuerySpec} {u : Select}
      {rest : CteSpecs} {us : CteClauses} {body text : String} (hquery : scope.AddsToQuery d n table q u body)
      (hrest : scope.AddsToCtes d true (after n (u.template d)) rest us text) :
      scope.AddsToCtes d more n (.query name table q rest) (.query label u us)
        (CteClauses.opening more ++ d.quoted label ++ " AS (" ++ body ++ ")" ++ text)

end

variable {k : Compiler} {scope : Scope} {d : Dialect}

/-! ## Single tests -/

theorem NullTest.of_qualifiedTest? {table column : String} {r : Reference} {a : Atom}
    (hr : Reference.of? table = .ok r) (h : Scope.qualifiedTest? table column = .ok a) :
    NullTest r column true a := by
  obtain ⟨s, hs, rfl⟩ := Except.map_eq_ok.mp h
  obtain ⟨names, p, label, hnames, hcolumn, rfl⟩ := Reference.of?_qualified hr hs
  exact .qualified hnames hcolumn

theorem Scope.addsTest_join {table : String} {r : Reference} {test : Option Atom}
    (hr : Reference.of? table = .ok r) (h : scope.joinTest? table = .ok test) :
    scope.AddsTest table r true test := by
  unfold Scope.joinTest? at h
  split at h
  · rename_i column hcolumn
    obtain ⟨a, ha, rfl⟩ := Except.map_eq_ok.mp h
    exact .present hcolumn (.of_qualifiedTest? hr ha)
  · rename_i hcolumn
    cases h
    exact .absent hcolumn

theorem Scope.addsTest_source {table : String} {joined : Bool} {r : Reference} {test : Option Atom}
    (hr : Reference.of? table = .ok r) (h : scope.sourceTest? table joined = .ok test) :
    scope.AddsTest table r joined test := by
  unfold Scope.sourceTest? at h
  split at h
  · rename_i column hcolumn
    split at h
    · rename_i hjoined
      obtain ⟨a, ha, rfl⟩ := Except.map_eq_ok.mp h
      rw [hjoined]
      exact .present hcolumn (.of_qualifiedTest? hr ha)
    · rename_i hjoined
      obtain ⟨n, hn, rfl⟩ := Except.map_eq_ok.mp h
      rw [Bool.not_eq_true] at hjoined
      rw [hjoined]
      exact .present hcolumn (.bare (Identifier.of?_eq_ok hn))
  · rename_i hcolumn
    cases h
    exact .absent hcolumn

/-! ## The text of a test -/

theorem Atom.print_notDeleted (d : Dialect) (r : Reference) :
    (Atom.notDeleted r).template.print d = r.template.print d ++ " IS NULL" := by
  rw [Atom.template, print, printFrom_append, printFrom, printFrom, String.append_empty]
  rfl

theorem Scope.AddsTest.prints {table : String} {r : Reference} {qualified : Bool} {test : Option Atom}
    (h : scope.AddsTest table r qualified test) (d : Dialect) :
    scope.PrintsTest d table r qualified (test.map fun a => a.template.print d) := by
  cases h with
  | absent hscope => exact .absent hscope
  | @present column a hscope htest =>
      obtain ⟨tested, rfl⟩ : ∃ tested, a = Atom.notDeleted tested := by cases htest <;> exact ⟨_, rfl⟩
      rw [Option.map_some, Atom.print_notDeleted]
      exact .present hscope htest

/-! ## A single SELECT -/

namespace JoinClause

variable {compared filters : Chain}

theorem condition_some (h : (compared.isEmpty && filters.isEmpty) = false) (a : Atom) :
    condition compared filters (some a) = condition compared filters none ++ .text " AND " :: a.template := by
  have hne : (if compared.isEmpty then [] else [Chain.enclosed compared (!filters.isEmpty)]) ++
      (if filters.isEmpty then [] else [Chain.enclosed filters true]) ≠ [] := by
    cases hcompared : compared.isEmpty <;> cases hfilters : filters.isEmpty <;> simp_all
  simp only [condition]
  rw [List.append_nil, joined_concat _ hne]

/-- The condition of a join with a test behind it, which has no parameters. -/
theorem printFrom_condition (h : (compared.isEmpty && filters.isEmpty) = false) {test : Option Atom}
    (htest : ∀ a ∈ test, params a.template = []) (d : Dialect) (n : ℕ) :
    params (condition compared filters test) = params (condition compared filters none) ∧
      printFrom d n (condition compared filters test) =
        " AND ".intercalate (printFrom d n (condition compared filters none) ::
          (test.map fun a => a.template.print d).toList) := by
  cases test with
  | none => exact ⟨rfl, rfl⟩
  | some a =>
      have hbare : params a.template = [] := htest a rfl
      rw [condition_some h]
      constructor
      · simp [params_append, params, hbare]
      · rw [printFrom_append, printFrom, printFrom_eq_print hbare]
        simp [String.intercalate_cons_cons, String.append_assoc]

end JoinClause

namespace JoinSpec

/-- What a join of a query adds to the text of the joins behind it. -/
theorem addsToJoins_cons {j : JoinSpec} {clause : JoinClause} {left : Option Atom}
    (h : j.clause? scope = .ok (clause, left)) (d : Dialect) :
    (∀ a ∈ left, params a.template = []) ∧ ∃ plain, j.clause? Scope.none = .ok (plain, none) ∧
      params clause.template = params plain.template ∧ ∀ n js us text tests,
        scope.AddsToJoins d (after n plain.template) js us text tests →
          scope.AddsToJoins d n (j :: js) (plain :: us) (" " ++ printFrom d n clause.template ++ text)
            ((left.map fun a => a.template.print d).toList ++ tests) := by
  simp only [clause?, Except.bind_eq_ok] at h ⊢
  obtain ⟨test, htest, r, hr, h⟩ := h
  have hprints := (Scope.addsTest_join hr htest).prints d
  have hbare : ∀ a ∈ test, params a.template = [] := fun a ha =>
    (Scope.carries_joinTest (d := d) htest a ha).params_eq
  have hname : params r.template = [] := (Reference.carries (d := d) hr).params_eq
  by_cases hkind : j.joinType = .cross
  · rw [if_pos hkind] at h
    split at h
    · cases h
    · rename_i hopen
      cases h
      refine ⟨hbare, .cross r, ⟨none, rfl, r, hr, ?_⟩, rfl, fun n js us text tests hrest => ?_⟩
      · rw [if_pos hkind, if_neg hopen]
        rfl
      · have hhere : after n (JoinClause.cross r).template = n := by simp [after, JoinClause.template, params, hname]
        rw [hhere] at hrest
        rw [JoinClause.printFrom_cross hname, ← String.append_assoc]
        exact .cross hkind hr hprints hrest
  · rw [if_neg hkind] at h
    simp only [Except.bind_eq_ok] at h
    obtain ⟨compared, hcompared, filters, hfilters, h⟩ := h
    split at h
    · cases h
    · rename_i hcondition
      cases h
      rw [Bool.not_eq_true] at hcondition
      refine ⟨by simp, .on j.joinType r compared filters none, ⟨none, rfl, r, hr, ?_⟩, ?_, ?_⟩
      · rw [if_neg hkind]
        simp only [Except.bind_eq_ok]
        exact ⟨compared, hcompared, filters, hfilters, if_neg (by simp [hcondition])⟩
      · rw [JoinClause.params_on hname, JoinClause.params_on hname]
        exact (JoinClause.printFrom_condition hcondition hbare d 1).1
      · intro n js us text tests hrest
        rw [after_congr (JoinClause.params_on hname j.joinType)] at hrest
        rw [JoinClause.printFrom_on hname, (JoinClause.printFrom_condition hcondition hbare d n).2, Option.map_none,
          Option.toList_none, List.nil_append]
        simpa only [String.append_assoc] using Scope.AddsToJoins.on hkind hr hprints hrest

/-- The joins of a query, with the tests that are left for the filter. -/
theorem addsToJoins {js : List JoinSpec} {parts : List (JoinClause × Option Atom)}
    (h : js.mapM (clause? scope) = .ok parts) (d : Dialect) :
    (∀ a ∈ parts.filterMap (·.2), params a.template = []) ∧
      ∃ plain, js.mapM (clause? Scope.none) = .ok plain ∧ plain.filterMap (·.2) = [] ∧
        params (SelectBody.joinTemplates (parts.map (·.1))) = params (SelectBody.joinTemplates (plain.map (·.1))) ∧
        ∀ n, scope.AddsToJoins d n js (plain.map (·.1))
          (printFrom d n (SelectBody.joinTemplates (parts.map (·.1))))
          ((parts.filterMap (·.2)).map fun a => a.template.print d) := by
  simp only [Except.mapM_eq_ok] at h ⊢
  induction h with
  | nil => exact ⟨by simp, [], .nil, rfl, rfl, fun n => .nil⟩
  | @cons j part js parts hpart _ ih =>
      obtain ⟨hbare, plain, hplain, hnone, hparams, hrest⟩ := ih
      obtain ⟨clause, left⟩ := part
      obtain ⟨hleft, first, hfirst, hfirstParams, hadds⟩ := addsToJoins_cons hpart d
      refine ⟨?_, (first, none) :: plain, .cons hfirst hplain, by simpa using hnone, ?_, fun n => ?_⟩
      · cases left with
        | none => simpa using hbare
        | some a => exact List.forall_mem_cons.mpr ⟨hleft a rfl, hbare⟩
      · simp only [SelectBody.joinTemplates, List.map_cons, List.flatMap_cons, List.cons_append, params,
          params_append] at hparams ⊢
        rw [hfirstParams, hparams]
      · have hall := hadds n _ _ _ _ (hrest (after n first.template))
        have htext : printFrom d n (SelectBody.joinTemplates (clause :: parts.map (·.1))) =
            " " ++ printFrom d n clause.template ++ printFrom d (after n first.template)
              (SelectBody.joinTemplates (parts.map (·.1))) := by
          rw [← after_congr hfirstParams]
          simp only [SelectBody.joinTemplates, List.flatMap_cons, List.cons_append, printFrom, printFrom_append, after,
            String.append_assoc]
        cases left with
        | none => simpa [htext] using hall
        | some a => simpa [htext] using hall

end JoinSpec

/-- Tests behind what a filter demands itself. -/
theorem Filter.printFrom_textWith (f : Filter) {tests : List Atom} (h : ∀ a ∈ tests, params a.template = [])
    (d : Dialect) (n : ℕ) :
    params (Filter.template ⟨f.given, f.also ++ tests⟩) = params f.template ∧
      printFrom d n (Filter.template ⟨f.given, f.also ++ tests⟩) =
        f.textWith d n (tests.map fun a => a.template.print d) := by
  have hparts : parts ⟨f.given, f.also ++ tests⟩ =
      f.partsBefore (tests.map fun a => a.template.print d) ++ tests.map Atom.template := by
    have hempty : (!(f.also ++ tests).isEmpty) = (!f.also.isEmpty || !tests.isEmpty) := by
      cases f.also <;> cases tests <;> rfl
    simp [parts, partsBefore, hempty]
  have hbare : ∀ t ∈ tests.map Atom.template, params t = [] := List.forall_mem_map.mpr h
  constructor
  · rw [params_template, params_template, hparts, List.flatMap_append]
    have hnone : (tests.map Atom.template).flatMap params = [] := List.flatMap_eq_nil_iff.mpr hbare
    rw [hnone, List.append_nil]
    by_cases hgiven : f.given = [] <;> simp [parts, partsBefore, hgiven, Chain.params_enclosed]
  · rw [printFrom_template, hparts, printEach_append _ _ _ hbare, textWith]
    rw [List.map_map]
    rfl

/-- A SELECT whose joins and filter have the tests has all of them. -/
theorem Scope.addsToBody_of {table : String} {c : SelectClauses} {u : SelectBody} {joins : List JoinClause}
    {filter : Filter} {test : Option String} {tests : List String} (htable : Reference.of? table = .ok u.source)
    (htest : scope.PrintsTest d table u.source (!c.joins.isEmpty) test)
    (hparams : params (SelectBody.joinTemplates joins) = params (SelectBody.joinTemplates u.joins))
    (hjoins : ∀ n, scope.AddsToJoins d n c.joins u.joins (printFrom d n (SelectBody.joinTemplates joins)) tests)
    (hfilter : ∀ n, params filter.template = params u.filter.template ∧
      printFrom d n filter.template = u.filter.textWith d n (test.toList ++ tests)) :
    params (SelectBody.template { u with joins, filter }) = params u.template ∧
      ∀ n, scope.AddsToBody d n table c u (printFrom d n (SelectBody.template { u with joins, filter })) := by
  let s : SelectBody := { u with joins, filter }
  have hopened : params (s.opening ++ SelectBody.joinTemplates s.joins) =
      params (u.opening ++ SelectBody.joinTemplates u.joins) := by
    rw [params_append, params_append, hparams]
    rfl
  have hfiltered : params (s.opening ++ SelectBody.joinTemplates s.joins ++ s.filter.template) =
      params (u.opening ++ SelectBody.joinTemplates u.joins ++ u.filter.template) := by
    rw [params_append, hopened, (hfilter 1).1, ← params_append]
  refine ⟨?_, fun n => ?_⟩
  · rw [s.template_eq, u.template_eq, params_append, hfiltered, ← params_append]
    rfl
  · rw [s.printFrom_template, after_congr hopened, after_congr hfiltered, (hfilter _).2]
    exact .intro htable htest (hjoins _)

namespace SelectClauses

theorem addsToBody {table : String} {c : SelectClauses} {s : SelectBody}
    (h : c.body? k scope table = .ok s) (d : Dialect) :
    ∃ u, c.body? k Scope.none table = .ok u ∧ params s.template = params u.template ∧
      ∀ n, scope.AddsToBody d n table c u (printFrom d n s.template) := by
  simp only [body?, Except.bind_eq_ok, Except.pure_eq_ok] at h ⊢
  obtain ⟨columns, hcolumns, source, hsource, joins, hjoins, given, hgiven, search, hsearch, test,
    htest, groupBy, hgroupBy, having, hhaving, rfl⟩ := h
  obtain ⟨hjoinsBare, plain, hplain, hnone, hparams, hadds⟩ := JoinSpec.addsToJoins hjoins d
  have htestBare : ∀ a ∈ test.toList, params a.template = [] := fun a ha =>
    (Scope.carries_sourceTest (d := d) htest a (Option.mem_toList.mp ha)).params_eq
  have hprints := (Scope.addsTest_source hsource htest).prints d
  let u : SelectBody :=
    ⟨c.distinct, columns, source, plain.map (·.1), ⟨given, search.toList⟩, groupBy, having⟩
  have hfilter := Filter.printFrom_textWith u.filter (List.forall_mem_append.mpr ⟨htestBare, hjoinsBare⟩) d
  rw [List.map_append, ← Option.toList_map] at hfilter
  have hbody := Scope.addsToBody_of (u := u) hsource hprints hparams hadds hfilter
  rw [List.append_assoc search.toList]
  refine ⟨u, ⟨columns, hcolumns, source, hsource, plain, hplain, given, hgiven, search, hsearch, none, rfl,
      groupBy, hgroupBy, having, hhaving, ?_⟩, hbody⟩
  rw [hnone, Option.toList_none, List.append_nil, List.append_nil]

end SelectClauses

/-! ## Queries of any nesting -/

theorem SelectClauses.scope_of_trashed {c : SelectClauses} (hc : c.withTrashed = true) (outer : Scope) :
    c.scope outer = c.scope Scope.none := by
  simp [SelectClauses.scope, hc]

theorem SelectClauses.scope_of_live {c : SelectClauses} (hc : c.withTrashed = false) (outer : Scope) :
    c.scope outer = outer := by
  simp [SelectClauses.scope, hc]

/-- A query for soft-deleted rows too is understood without regard to the scope. -/
theorem QuerySpec.select?_of_trashed {q : QuerySpec} (hq : q.clauses.withTrashed = true)
    (table : String) : q.select? k scope table = q.select? k Scope.none table := by
  cases q with
  | mk c union ctes =>
      have hscope : c.scope scope = c.scope Scope.none := SelectClauses.scope_of_trashed hq scope
      rw [QuerySpec.select?, QuerySpec.select?, hscope]

mutual

theorem QuerySpec.addsToQuery (d : Dialect) : ∀ (q : QuerySpec) (table : String) (s : Select),
    q.select? k scope table = .ok s →
      ∃ u, q.select? k Scope.none table = .ok u ∧ params (s.template d) = params (u.template d) ∧
        ∀ n, scope.AddsToQuery d n table q u (printFrom d n (s.template d))
  | .mk c union ctes => by
      intro table s h
      cases hc : c.withTrashed with
      | true =>
          rw [QuerySpec.select?_of_trashed (q := .mk c union ctes) hc] at h
          exact ⟨s, h, rfl, fun n => .trashed hc⟩
      | false =>
          simp only [QuerySpec.select?, SelectClauses.scope_of_live hc, Except.bind_eq_ok,
            Except.pure_eq_ok] at h ⊢
          obtain ⟨clauses, hclauses, first, hfirst, rest, hrest, order, horder, rfl⟩ := h
          obtain ⟨cu, hcu, hctesParams, hctes⟩ := CteSpecs.addsToCtes d false ctes clauses hclauses
          obtain ⟨u, hu, hbodyParams, hbody⟩ := SelectClauses.addsToBody hfirst d
          obtain ⟨us, hus, hunionParams, hunion⟩ := UnionSpec.addsToUnion d union rest hrest
          have hwith : params (Select.withTemplate d clauses) = params (Select.withTemplate d cu) := hctesParams
          have hfront : params (Select.withTemplate d clauses ++ first.template) =
              params (Select.withTemplate d cu ++ u.template) := by
            rw [params_append, hwith, hbodyParams, ← params_append]
          have hmembers : params (Select.withTemplate d clauses ++ first.template ++ Select.restTemplate rest) =
              params (Select.withTemplate d cu ++ u.template ++ Select.restTemplate us) := by
            rw [params_append, hfront, hunionParams, ← params_append]
          refine ⟨_, ⟨cu, hcu, u, hu, us, hus, order, horder, rfl⟩, ?_, fun n => ?_⟩
          · rw [Select.template, Select.template, List.append_assoc, params_append, hmembers, ← params_append,
              ← List.append_assoc]
          · rw [Select.printFrom_template, after_congr hwith, after_congr hfront, after_congr hmembers]
            exact .live hc (hctes n) (hbody _) (hunion _)

theorem UnionSpec.addsToUnion (d : Dialect) : ∀ (union : UnionSpec) (ss : List (Bool × SelectBody)),
    QuerySpec.unionMembers? k scope union = .ok ss →
      ∃ us, QuerySpec.unionMembers? k Scope.none union = .ok us ∧
        params (Select.restTemplate ss) = params (Select.restTemplate us) ∧
        ∀ n, scope.AddsToUnion d n union us (printFrom d n (Select.restTemplate ss))
  | .none => by
      intro ss h
      cases h
      exact ⟨[], rfl, rfl, fun n => .none⟩
  | .member table (.mk c union ctes) all => by
      intro ss h
      obtain ⟨hordered, rfl, body, hbody, members, hmembers, rfl⟩ :=
        QuerySpec.unionMembers?_member.mp h
      -- a member that asks for soft-deleted rows takes the scope from those behind it too
      cases hc : c.withTrashed with
      | true =>
          rw [SelectClauses.scope_of_trashed hc] at hbody hmembers
          exact ⟨_, QuerySpec.unionMembers?_member.mpr
            ⟨hordered, rfl, body, hbody, members, hmembers, rfl⟩, rfl, fun n => .trashed hc⟩
      | false =>
          rw [SelectClauses.scope_of_live hc] at hbody hmembers
          obtain ⟨u, hu, hfirstParams, hfirst⟩ := SelectClauses.addsToBody hbody d
          obtain ⟨us, hus, hrestParams, hrest⟩ := UnionSpec.addsToUnion d union members hmembers
          rw [← SelectClauses.scope_of_live hc Scope.none] at hu hus
          refine ⟨_, QuerySpec.unionMembers?_member.mpr ⟨hordered, rfl, u, hu, us, hus, rfl⟩, ?_, fun n => ?_⟩
          · rw [Select.restTemplate_cons, Select.restTemplate_cons]
            simp only [params, params_append, hfirstParams, hrestParams]
          · have hall : scope.AddsToUnion d n (.member table (.mk c union .nil) all) ((all, u) :: us) _ :=
              .live hc (hfirst n) (hrest (after n u.template))
            rw [Select.restTemplate_cons, printFrom, printFrom_append, ← String.append_assoc]
            rwa [← after_congr hfirstParams] at hall

theorem CteSpecs.addsToCtes (d : Dialect) (more : Bool) : ∀ (ctes : CteSpecs) (ss : CteClauses),
    QuerySpec.cteClauses? k scope ctes = .ok ss →
      ∃ us, QuerySpec.cteClauses? k Scope.none ctes = .ok us ∧
        params (ss.template d more) = params (us.template d more) ∧
        ∀ n, scope.AddsToCtes d more n ctes us (printFrom d n (ss.template d more))
  | .nil => by
      intro ss h
      cases h
      have htext (n : ℕ) : printFrom d n (CteClauses.nil.template d more) = if more then " " else "" := by
        cases more <;> rfl
      exact ⟨.nil, rfl, rfl, fun n => htext n ▸ .nil⟩
  | .raw name fragment rest => by
      intro ss h
      simp only [QuerySpec.cteClauses?, Except.bind_eq_ok, Except.pure_eq_ok] at h ⊢
      obtain ⟨label, hlabel, checked, hchecked, others, hothers, rfl⟩ := h
      obtain ⟨us, hus, hparams, hrest⟩ := CteSpecs.addsToCtes d true rest others hothers
      refine ⟨_, ⟨label, hlabel, checked, hchecked, us, hus, rfl⟩, ?_, fun n => ?_⟩
      · rw [CteClauses.template_raw, CteClauses.template_raw]
        exact hparams
      · rw [CteClauses.template_raw]
        have hall : scope.AddsToCtes d more n (.raw name fragment rest) (.raw label checked us) _ := .raw (hrest n)
        simpa only [printFrom, String.append_assoc] using hall
  | .query name table q rest => by
      intro ss h
      simp only [QuerySpec.cteClauses?, Except.bind_eq_ok, Except.pure_eq_ok] at h ⊢
      obtain ⟨label, hlabel, body, hbody, others, hothers, rfl⟩ := h
      obtain ⟨u, hu, hbodyParams, hquery⟩ := QuerySpec.addsToQuery d q table body hbody
      obtain ⟨us, hus, hparams, hrest⟩ := CteSpecs.addsToCtes d true rest others hothers
      refine ⟨_, ⟨label, hlabel, u, hu, us, hus, rfl⟩, ?_, fun n => ?_⟩
      · rw [CteClauses.template_query, CteClauses.template_query]
        simp only [params, params_append, hbodyParams, hparams]
      · rw [CteClauses.template_query]
        have hall : scope.AddsToCtes d more n (.query name table q rest) (.query label u us) _ :=
          .query (hquery n) (hrest (after n (u.template d)))
        rw [← after_congr hbodyParams] at hall
        simpa only [printFrom, printFrom_append, after, String.append_assoc] using hall

end

/-- The statement of a query that leaves out soft-deleted rows has the parameters of the query as it stands, and its
text with just the tests that the scope asks for. A query for soft-deleted rows too has the same statement in every
scope. -/
theorem Compiler.selectScoped_adds (k : Compiler) (scope : Scope) (table : String) (q : QuerySpec) :
    (∀ stmt, k.selectScoped table q scope = .ok stmt →
      ∃ u, q.select? k Scope.none table = .ok u ∧ scope.AddsToQuery k.dialect 1 table q u stmt.sql ∧
        stmt.params = params (u.template k.dialect)) ∧
    (q.clauses.withTrashed = true → k.selectScoped table q scope = k.select table q) := by
  constructor
  · intro stmt h
    obtain ⟨s, hs, rfl⟩ := Compiler.selectScoped_eq_ok.mp h
    obtain ⟨u, hu, hparams, hadds⟩ := QuerySpec.addsToQuery k.dialect q table s hs
    exact ⟨u, hu, hadds 1, hparams⟩
  · intro hq
    rw [Compiler.select, Compiler.selectScoped, Compiler.selectScoped, QuerySpec.select?_of_trashed hq]

/-- Four tables keep soft-deleted rows here, of which one is read by a common table expression, and a query for all
its rows is united with the first. -/
theorem Compiler.selectScoped_adds_union :
    let scope : Scope := fun table => if table = "logs" then none else some "gone"
    let named := QuerySpec.ofConditions [.eq "u.name" (.text "ada"), (Condition.eq "u.age" (.int 36)).or]
    let joined := (named.join (.ofPair .left "orders as o" "u.id" "o.user")).join (.cross "days")
    let q := (joined.unionWith "logs" ((QuerySpec.empty.join (.cross "users")).withTrashed) false).withQuery
      "recent" "visits" QuerySpec.empty
    let sql := "WITH \"recent\" AS (SELECT * FROM \"visits\" WHERE \"gone\" IS NULL) " ++
      "SELECT * FROM \"users\" AS \"u\" LEFT JOIN \"orders\" AS \"o\"" ++
      " ON \"u\".\"id\" = \"o\".\"user\" AND \"o\".\"gone\" IS NULL CROSS JOIN \"days\"" ++
      " WHERE (\"u\".\"name\" = $1 OR \"u\".\"age\" = $2) AND \"u\".\"gone\" IS NULL AND \"days\".\"gone\" IS NULL" ++
      " UNION SELECT * FROM \"logs\" CROSS JOIN \"users\""
    let k : Compiler := ⟨.postgres, .guarded⟩
    ∃ u, q.select? k Scope.none "users as u" = .ok u ∧ scope.AddsToQuery .postgres 1 "users as u" q u sql := by
  intro scope named joined q sql k
  obtain ⟨stmt, hstmt, hsql⟩ := Except.exists_of_any
    (show (k.selectScoped "users as u" q scope).toOption.any (fun stmt => stmt.sql == sql) = true by
      decide +kernel)
  obtain ⟨u, hu, hadds, -⟩ := (Compiler.selectScoped_adds k scope "users as u" q).1 stmt hstmt
  rw [beq_iff_eq.mp hsql] at hadds
  exact ⟨u, hu, hadds⟩

end TableGate
