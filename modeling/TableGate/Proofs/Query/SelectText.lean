import TableGate.Proofs.Sql.Rendering
import TableGate.Query.Select

/-! # The text of a SELECT, part by part

Each part of a select statement is printed behind those before it, from whose parameters its own are numbered on. -/

namespace TableGate

open Template

namespace JoinClause

variable {compared filters : Chain} {test : Option Atom} {r : Reference}

theorem params_on (hr : params r.template = []) (kind : JoinType) :
    params (JoinClause.on kind r compared filters test).template = params (condition compared filters test) := by
  simp [template, params, params_append, hr]

theorem printFrom_on (hr : params r.template = []) (d : Dialect) (n : ℕ)
    (kind : JoinType) : printFrom d n (JoinClause.on kind r compared filters test).template =
      kind.sql ++ " " ++ r.template.print d ++ " ON " ++ printFrom d n (condition compared filters test) := by
  rw [template, List.cons_append, printFrom, printFrom_append, printFrom, printFrom_eq_print hr, hr]
  simp only [List.length_nil, Nat.add_zero, String.append_assoc]

theorem printFrom_cross (hr : params r.template = []) (d : Dialect) (n : ℕ) :
    printFrom d n (JoinClause.cross r).template = "CROSS JOIN " ++ r.template.print d := by
  rw [template, printFrom, printFrom_eq_print hr]
  rfl

end JoinClause

theorem Chain.params_enclosed (chain : Chain) (wrapped : Bool) :
    params (chain.enclosed wrapped) = params (Predicate.chainTemplate chain) := by
  unfold enclosed
  split
  · simp [parenthesized, params, params_append]
  · rfl

theorem Filter.params_template (f : Filter) : params f.template = f.parts.flatMap params := by
  unfold template
  split
  · rename_i hparts
    rw [hparts]
    rfl
  · rw [params, params_joined]
    simp

theorem Filter.printFrom_template (f : Filter) (d : Dialect) (n : ℕ) :
    printFrom d n f.template = match printEach d n f.parts with
      | [] => ""
      | parts => " WHERE " ++ " AND ".intercalate parts := by
  unfold template
  split
  · rename_i hparts
    rw [hparts]
    rfl
  · rw [printFrom, printFrom_joined]
    cases hparts : f.parts with
    | nil => simp_all
    | cons t ts => rfl

namespace SelectBody

/-- What stands before the joins of a SELECT. -/
def opening (b : SelectBody) : Template :=
  .text (if b.distinct then "SELECT DISTINCT " else "SELECT ") :: joined ", " b.columns ++
    .text " FROM " :: b.source.template

/-- What stands behind the filter of a SELECT. -/
def closing (b : SelectBody) : Template :=
  groupTemplate b.groupBy ++ b.having.template

theorem template_eq (b : SelectBody) :
    b.template = b.opening ++ joinTemplates b.joins ++ b.filter.template ++ b.closing := by
  simp [template, opening, closing]

theorem printFrom_template (b : SelectBody) (d : Dialect) (n : ℕ) :
    printFrom d n b.template = printFrom d n b.opening ++ printFrom d (after n b.opening) (joinTemplates b.joins) ++
      printFrom d (after n (b.opening ++ joinTemplates b.joins)) b.filter.template ++
      printFrom d (after n (b.opening ++ joinTemplates b.joins ++ b.filter.template)) b.closing := by
  rw [template_eq, printFrom_append, printFrom_append, printFrom_append]
  rfl

end SelectBody

namespace CteClauses

/-- What stands in front of a common table expression, of the first or of one more. -/
def opening (more : Bool) : String :=
  if more then ", " else "WITH "

/-- Common table expressions as they stand at the front, or behind others. -/
def template (d : Dialect) (more : Bool) (ctes : CteClauses) : Template :=
  if more then Select.moreCtes d ctes else Select.withTemplate d ctes

theorem template_raw (d : Dialect) (more : Bool) (label : Identifier) (checked : String) (rest : CteClauses) :
    template d more (.raw label checked rest) = .text (opening more) :: .name label :: .text " AS (" ::
      .raw checked :: .text ")" :: rest.template d true := by
  cases more <;> rfl

theorem template_query (d : Dialect) (more : Bool) (label : Identifier) (body : Select) (rest : CteClauses) :
    template d more (.query label body rest) = .text (opening more) :: .name label :: .text " AS (" ::
      (body.template d ++ .text ")" :: rest.template d true) := by
  cases more <;> rfl

end CteClauses

namespace Select

theorem printFrom_template (d : Dialect) (n : ℕ) (ctes : CteClauses) (first : SelectBody)
    (rest : List (Bool × SelectBody)) (order : List OrderTerm) (limit offset : Option UInt64) :
    printFrom d n (Select.template d (.mk ctes first rest order limit offset)) =
      printFrom d n (ctes.template d false) ++ printFrom d (after n (withTemplate d ctes)) first.template ++
        printFrom d (after n (withTemplate d ctes ++ first.template)) (restTemplate rest) ++
        printFrom d (after n (withTemplate d ctes ++ first.template ++ restTemplate rest)) (orderTemplate order) ++
        d.limitClause (limit.map UInt64.toNat) (offset.map UInt64.toNat) := by
  rw [template, printFrom_append, printFrom_append, printFrom_append, printFrom_append, printFrom, printFrom,
    String.append_empty]
  rfl

theorem restTemplate_cons (all : Bool) (body : SelectBody) (rest : List (Bool × SelectBody)) :
    restTemplate ((all, body) :: rest) =
      .text (if all then " UNION ALL " else " UNION ") :: (body.template ++ restTemplate rest) :=
  rfl

end Select

end TableGate
