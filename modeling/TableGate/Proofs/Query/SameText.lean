import TableGate.Proofs.Query.WithoutData

/-! # Statements that differ in their data alone

The text of a statement does not depend on its data: two queries or writes that are the same up to their
data both fail, with the same fault, or become statements with the same text and equally many parameters. -/

namespace TableGate

/-! ## Templates without their data -/

def Piece.withoutData : Piece → Piece
  | .param _ => .param (.text "")
  | .text s => .text s
  | .name n => .name n
  | .raw fragment => .raw fragment
  | .literal content => .literal content

namespace Template

/-- A template without the values of its parameters. -/
def withoutData (t : Template) : Template :=
  t.map Piece.withoutData

@[simp]
theorem withoutData_nil : withoutData [] = [] :=
  rfl

@[simp]
theorem withoutData_cons (p : Piece) (t : Template) :
    withoutData (p :: t) = p.withoutData :: t.withoutData :=
  rfl

@[simp]
theorem withoutData_append (s t : Template) : withoutData (s ++ t) = s.withoutData ++ t.withoutData :=
  List.map_append

theorem withoutData_flatMap {α : Type} (f : α → Template) (xs : List α) :
    withoutData (xs.flatMap f) = xs.flatMap fun x => (f x).withoutData := by
  induction xs with
  | nil => rfl
  | cons x xs ih => rw [List.flatMap_cons, List.flatMap_cons, withoutData_append, ih]

theorem withoutData_joined (separator : String) (ts : List Template) :
    withoutData (joined separator ts) = joined separator (ts.map withoutData) := by
  induction ts with
  | nil => rfl
  | cons t ts ih =>
      cases ts with
      | nil => rfl
      | cons u us =>
          rw [List.map_cons] at ih ⊢
          rw [joined, withoutData_append, withoutData_cons, ih]
          · rfl
          · exact List.cons_ne_nil _ _

/-- Where a change does not matter to the templates of elements, it does not matter to a row of them. -/
theorem withoutData_joined_map {α : Type} {f : α → Template} {change : α → α}
    (h : ∀ x, (f (change x)).withoutData = (f x).withoutData) (separator : String) (xs : List α) :
    (joined separator ((xs.map change).map f)).withoutData =
      (joined separator (xs.map f)).withoutData := by
  rw [withoutData_joined, withoutData_joined, List.map_map, List.map_map, List.map_map]
  exact congrArg (joined separator) (List.map_congr_left fun x _ => h x)

@[simp]
theorem withoutData_parenthesized (t : Template) :
    withoutData t.parenthesized = t.withoutData.parenthesized := by
  rw [parenthesized, parenthesized, withoutData_append]
  rfl

/-- The text of a template is printed without its data. -/
theorem printFrom_withoutData (d : Dialect) (n : ℕ) (t : Template) :
    printFrom d n t.withoutData = printFrom d n t := by
  induction t generalizing n with
  | nil => rfl
  | cons p t ih => cases p <;> simp [Piece.withoutData, printFrom, ih]

theorem length_params_withoutData (t : Template) :
    (params t.withoutData).length = (params t).length := by
  induction t with
  | nil => rfl
  | cons p t ih => cases p <;> simp [Piece.withoutData, params, ih]

end Template

/-! ## Data in the trees of statements is data in their templates -/

theorem Operand.template_withoutData (o : Operand) :
    o.withoutData.template.withoutData = o.template.withoutData := by
  cases o <;> rfl

theorem Atom.template_withoutData (a : Atom) :
    a.withoutData.template.withoutData = a.template.withoutData := by
  cases a with
  | compare column operator operand =>
      simp [Atom.withoutData, Atom.template, operand.template_withoutData]
  | among column negated operands =>
      have hoperands := Template.withoutData_joined_map Operand.template_withoutData ", " operands
      simp only [Atom.withoutData, Atom.template, Template.withoutData_append, Template.withoutData_cons,
        hoperands]
  | between column low high =>
      simp [Atom.withoutData, Atom.template, low.template_withoutData, high.template_withoutData]
  | search form columns term => cases form <;> simp [Atom.withoutData, Atom.template, searchTemplate,
      Piece.withoutData]
  | nullTest | constant | notDeleted => rfl

namespace Predicate

mutual

theorem template_withoutData : ∀ p : Predicate,
    (withoutData p).template.withoutData = p.template.withoutData
  | .atom a => a.template_withoutData
  | .group chain => by
      simp [withoutData, template, chainTemplate_withoutData chain]

/-- A chain without its data has the template of the chain, up to data. -/
theorem chainTemplate_withoutData : ∀ chain : Chain,
    (chainTemplate (chainWithoutData chain)).withoutData = (chainTemplate chain).withoutData
  | [] => rfl
  | (c, p) :: rest => by
      simp [chainWithoutData, chainTemplate, template_withoutData p, restTemplate_withoutData rest]

theorem restTemplate_withoutData : ∀ chain : Chain,
    (restTemplate (chainWithoutData chain)).withoutData = (restTemplate chain).withoutData
  | [] => rfl
  | (c, p) :: rest => by
      simp [chainWithoutData, restTemplate, template_withoutData p, restTemplate_withoutData rest]

end

end Predicate

theorem Chain.length_withoutData (chain : Chain) : (Chain.withoutData chain).length = chain.length := by
  induction chain with
  | nil => rfl
  | cons link chain ih => exact congrArg (· + 1) ih

theorem Chain.enclosed_withoutData (chain : Chain) (wrapped : Bool) :
    (Chain.enclosed (Chain.withoutData chain) wrapped).withoutData =
      (Chain.enclosed chain wrapped).withoutData := by
  have hchain := Predicate.chainTemplate_withoutData chain
  unfold Chain.enclosed
  rw [Chain.length_withoutData]
  dsimp only
  split
  · rw [Template.withoutData_parenthesized, Template.withoutData_parenthesized]
    exact congrArg Template.parenthesized hchain
  · exact hchain

theorem JoinClause.condition_withoutData (compared filters : Chain) (scope : Option Atom) :
    (condition (Chain.withoutData compared) (Chain.withoutData filters)
      (scope.map Atom.withoutData)).withoutData = (condition compared filters scope).withoutData := by
  unfold condition
  simp only [Template.withoutData_joined, Chain.isEmpty_withoutData, List.map_append]
  congr 2
  · congr 1
    · split
      · rfl
      · simp [Chain.enclosed_withoutData]
    · split
      · rfl
      · simp [Chain.enclosed_withoutData]
  · cases scope with
    | none => rfl
    | some a => exact congrArg (fun t => [t]) a.template_withoutData

theorem JoinClause.template_withoutData (j : JoinClause) :
    j.withoutData.template.withoutData = j.template.withoutData := by
  cases j with
  | cross table => rfl
  | on kind table compared filters scope =>
      simp [JoinClause.withoutData, template, condition_withoutData]

theorem Filter.template_withoutData (f : Filter) :
    f.withoutData.template.withoutData = f.template.withoutData := by
  have hparts : f.withoutData.parts.map Template.withoutData = f.parts.map Template.withoutData := by
    have halso : (f.also.map Atom.withoutData).isEmpty = f.also.isEmpty := by cases f.also <;> rfl
    simp only [parts, Filter.withoutData, Chain.isEmpty_withoutData, halso, List.map_append, List.map_map]
    congr 1
    · split
      · rfl
      · simp [Chain.enclosed_withoutData]
    · exact List.map_congr_left fun a _ => a.template_withoutData
  unfold template
  cases hleft : f.withoutData.parts with
  | nil =>
      have hright : f.parts = [] := by simpa [hleft] using hparts.symm
      rw [hright]
  | cons s ss =>
      cases hright : f.parts with
      | nil => simp [hleft, hright] at hparts
      | cons t ts =>
          rw [hleft, hright] at hparts
          simp only [Template.withoutData_cons, Template.withoutData_joined, hparts]

theorem HavingClause.template_withoutData (having : HavingClause) :
    having.withoutData.template.withoutData = having.template.withoutData := by
  cases having with
  | absent | raw => rfl
  | chain c => exact congrArg (Piece.text " HAVING " :: ·) (Predicate.chainTemplate_withoutData c)

theorem SelectBody.joinTemplates_withoutData (joins : List JoinClause) :
    (joinTemplates (joins.map JoinClause.withoutData)).withoutData = (joinTemplates joins).withoutData := by
  rw [joinTemplates, joinTemplates, Template.withoutData_flatMap, Template.withoutData_flatMap,
    List.flatMap_map]
  simp only [Template.withoutData_cons, JoinClause.template_withoutData]

theorem SelectBody.template_withoutData (b : SelectBody) :
    b.withoutData.template.withoutData = b.template.withoutData := by
  simp only [SelectBody.withoutData, template, Template.withoutData_append, Template.withoutData_cons,
    joinTemplates_withoutData, b.filter.template_withoutData, b.having.template_withoutData]
  rfl

theorem Select.restTemplate_withoutData (rest : List (Bool × SelectBody)) :
    (restTemplate (rest.map fun m => (m.1, m.2.withoutData))).withoutData =
      (restTemplate rest).withoutData := by
  rw [restTemplate, restTemplate, Template.withoutData_flatMap, Template.withoutData_flatMap,
    List.flatMap_map]
  simp only [Template.withoutData_cons, SelectBody.template_withoutData]

mutual

/-- A select statement without its data has the template of the statement, up to data. -/
theorem Select.template_withoutData (d : Dialect) : ∀ s : Select,
    (s.withoutData.template d).withoutData = (s.template d).withoutData
  | .mk ctes first rest orderBy limit offset => by
      simp [Select.withoutData, Select.template, CteClauses.withTemplate_withoutData d ctes,
        first.template_withoutData, Select.restTemplate_withoutData]

theorem CteClauses.withTemplate_withoutData (d : Dialect) : ∀ ctes : CteClauses,
    (Select.withTemplate d ctes.withoutData).withoutData = (Select.withTemplate d ctes).withoutData
  | .nil => rfl
  | .raw name fragment rest => by
      simp [CteClauses.withoutData, Select.withTemplate, CteClauses.moreCtes_withoutData d rest]
  | .query name body rest => by
      simp [CteClauses.withoutData, Select.withTemplate, Select.template_withoutData d body,
        CteClauses.moreCtes_withoutData d rest]

theorem CteClauses.moreCtes_withoutData (d : Dialect) : ∀ ctes : CteClauses,
    (Select.moreCtes d ctes.withoutData).withoutData = (Select.moreCtes d ctes).withoutData
  | .nil => rfl
  | .raw name fragment rest => by
      simp [CteClauses.withoutData, Select.moreCtes, CteClauses.moreCtes_withoutData d rest]
  | .query name body rest => by
      simp [CteClauses.withoutData, Select.moreCtes, Select.template_withoutData d body,
        CteClauses.moreCtes_withoutData d rest]

end

theorem Insert.tupleTemplate_withoutData (values : List Value) :
    (tupleTemplate (values.map fun _ => .text "")).withoutData = (tupleTemplate values).withoutData := by
  simp [tupleTemplate, Template.withoutData_joined, Piece.withoutData, Function.comp_def]

theorem Insert.template_withoutData (d : Dialect) (i : Insert) :
    (i.withoutData.template d).withoutData = (i.template d).withoutData := by
  have htuples := Template.withoutData_joined_map tupleTemplate_withoutData ", " i.tuples
  unfold template Insert.withoutData
  dsimp only
  split
  · rfl
  · simp only [Template.withoutData_append, Template.withoutData_cons, htuples]

theorem Write.assignmentTemplate_withoutData (assignments : List (Identifier × Assigned)) :
    (assignmentTemplate (assignments.map fun p => (p.1, p.2.withoutData))).withoutData =
      (assignmentTemplate assignments).withoutData := by
  have hassigned (a : Assigned) : a.withoutData.template.withoutData = a.template.withoutData := by
    cases a <;> rfl
  simp [assignmentTemplate, Template.withoutData_joined, hassigned, Function.comp_def]

theorem Write.whereTemplate_withoutData (chain : Chain) :
    (whereTemplate (Chain.withoutData chain)).withoutData = (whereTemplate chain).withoutData := by
  have hchain := Predicate.chainTemplate_withoutData chain
  unfold whereTemplate
  rw [Chain.isEmpty_withoutData]
  split
  · rfl
  · exact congrArg (Piece.text " WHERE " :: ·) hchain

/-- A write without its data has the template of the write, up to data. -/
theorem Write.template_withoutData (d : Dialect) (w : Write) :
    (w.withoutData.template d).withoutData = (w.template d).withoutData := by
  cases w with
  | insert rows => exact rows.template_withoutData d
  | upsert rows conflict => simp [Write.withoutData, template, rows.template_withoutData d]
  | update table assignments chain =>
      simp [Write.withoutData, template, assignmentTemplate_withoutData, whereTemplate_withoutData]
  | delete table chain => simp [Write.withoutData, template, whereTemplate_withoutData]

/-! ## Outcomes that differ in data alone -/

/-- The outcomes of two attempts at a statement: the same fault, or two statements with the same text and
equally many parameters. -/
inductive SameText : Except Fault Statement → Except Fault Statement → Prop where
  | fault (f : Fault) : SameText (.error f) (.error f)
  | statement (s t : Statement) (sql : s.sql = t.sql) (count : s.params.length = t.params.length) :
      SameText (.ok s) (.ok t)

/-- What is printed from the same thing up to data has the same text. -/
theorem SameText.of_map_eq {α : Type} {withoutData : α → α} {template : α → Template} (d : Dialect)
    (hdata : ∀ x, (template (withoutData x)).withoutData = (template x).withoutData)
    {r r' : Except Fault α} (h : r.map withoutData = r'.map withoutData) :
    SameText (r.map fun x => (template x).statement d) (r'.map fun x => (template x).statement d) := by
  cases r with
  | error f =>
      cases r' with
      | error g =>
          obtain rfl : f = g := by simpa [Except.map] using h
          exact .fault f
      | ok y => simp [Except.map] at h
  | ok x =>
      cases r' with
      | error g => simp [Except.map] at h
      | ok y =>
          have hsame : withoutData x = withoutData y := by simpa [Except.map] using h
          have htemplate : (template x).withoutData = (template y).withoutData := by
            rw [← hdata x, ← hdata y, hsame]
          refine .statement _ _ ?_ ?_
          · change Template.printFrom d 1 (template x) = Template.printFrom d 1 (template y)
            rw [← Template.printFrom_withoutData, htemplate, Template.printFrom_withoutData]
          · change (Template.params (template x)).length = (Template.params (template y)).length
            rw [← Template.length_params_withoutData, htemplate, Template.length_params_withoutData]

namespace Compiler

theorem select_sameText (k : Compiler) (scope : Scope) (table : String) {q q' : QuerySpec}
    (h : q.withoutData = q'.withoutData) :
    SameText (k.selectScoped table q scope) (k.selectScoped table q' scope) := by
  have hselect : (q.select? k scope table).map Select.withoutData =
      (q'.select? k scope table).map Select.withoutData := by
    rw [← q.select?_withoutData, ← q'.select?_withoutData, h]
  exact SameText.of_map_eq k.dialect (Select.template_withoutData k.dialect) hselect

theorem write_sameText (k : Compiler) {w w' : Except Fault Write}
    (h : w.map Write.withoutData = w'.map Write.withoutData) : SameText (k.write w) (k.write w') :=
  SameText.of_map_eq k.dialect (Write.template_withoutData k.dialect) h

/-- No compiled statement has data in its text. Queries that are the same without their data, rows with the
same columns, and conditions that are the same without their data lead to the same fault or to the same
text with equally many parameters. -/
theorem data_not_in_text (k : Compiler) (scope : Scope) (table : String) :
    (∀ q q' : QuerySpec, q.withoutData = q'.withoutData →
      SameText (k.selectScoped table q scope) (k.selectScoped table q' scope)) ∧
    (∀ rows rows' : List Row, rows.map NameMap.names = rows'.map NameMap.names →
      SameText (k.insert table rows) (k.insert table rows') ∧
      ∀ uniqueBy update,
        SameText (k.upsert table rows uniqueBy update) (k.upsert table rows' uniqueBy update)) ∧
    (∀ cs cs' : List Condition,
      Condition.withoutData .parameter cs = Condition.withoutData .parameter cs' →
      (∀ values values' : Row, values.names = values'.names →
        SameText (k.update table values cs) (k.update table values' cs')) ∧
      SameText (k.delete table cs) (k.delete table cs') ∧
      ∀ column, SameText (k.softDelete table column cs) (k.softDelete table column cs') ∧
        SameText (k.restore table column cs) (k.restore table column cs')) := by
  refine ⟨fun q q' h => k.select_sameText scope table h, fun rows rows' h => ?_, fun cs cs' h => ?_⟩
  · have hrows := (Row.map_withoutData_eq_iff rows rows').mpr h
    refine ⟨k.write_sameText ?_, fun uniqueBy update => k.write_sameText ?_⟩
    · rw [← Write.insertOf?_withoutData, hrows, Write.insertOf?_withoutData]
    · rw [← Write.upsertOf?_withoutData, hrows, Write.upsertOf?_withoutData]
  · refine ⟨fun values values' hnames => k.write_sameText ?_, k.write_sameText ?_,
      fun column => ⟨k.write_sameText ?_, k.write_sameText ?_⟩⟩
    · have hvalues := (Row.withoutData_eq_iff values values').mpr hnames
      rw [← Write.updateOf?_withoutData, hvalues, h, Write.updateOf?_withoutData]
    · rw [← Write.deleteOf?_withoutData, h, Write.deleteOf?_withoutData]
    · rw [← Write.softDeleteOf?_withoutData, h, Write.softDeleteOf?_withoutData]
    · rw [← Write.restoreOf?_withoutData, h, Write.restoreOf?_withoutData]

/-- A text that would end a literal is bound like any other, in a condition as in a row. -/
theorem data_not_in_text_quoted :
    let k : Compiler := ⟨.postgres, .guarded⟩
    let named (name : String) : List Condition := [.eq "name" (.text name)]
    let q (name : String) := QuerySpec.ofConditions (named name)
    let row (name : String) : Row := NameMap.empty.insert "name" (.text name)
    (q "ada").withoutData = (q "' OR 1 = 1").withoutData ∧
      Condition.withoutData .parameter (named "ada") =
        Condition.withoutData .parameter (named "' OR 1 = 1") ∧
      (row "ada").names = (row "' OR 1 = 1").names ∧
      SameText (k.selectScoped "users" (q "ada") Scope.none)
        (k.selectScoped "users" (q "' OR 1 = 1") Scope.none) ∧
      SameText (k.insert "users" [row "ada"]) (k.insert "users" [row "' OR 1 = 1"]) ∧
      SameText (k.update "users" (row "ada") (named "ada"))
        (k.update "users" (row "' OR 1 = 1") (named "' OR 1 = 1")) := by
  intro k named q row
  have hquery : (q "ada").withoutData = (q "' OR 1 = 1").withoutData := rfl
  have hconditions : Condition.withoutData .parameter (named "ada") =
      Condition.withoutData .parameter (named "' OR 1 = 1") := rfl
  have hnames : (row "ada").names = (row "' OR 1 = 1").names := rfl
  obtain ⟨hselect, hinsert, hwrite⟩ := data_not_in_text k Scope.none "users"
  refine ⟨hquery, hconditions, hnames, hselect _ _ hquery, (hinsert _ _ ?_).1,
    (hwrite _ _ hconditions).1 _ _ hnames⟩
  rw [List.map_singleton, List.map_singleton, hnames]

end Compiler

end TableGate
