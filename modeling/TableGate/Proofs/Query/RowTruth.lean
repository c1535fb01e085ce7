import TableGate.Proofs.Query.Truth

/-! # The truth of conditions in a row

A comparison reads the value of its column in a row and compares it in the way of the column. It is as true
as the atom that it is understood as. -/

namespace TableGate

/-- The way in which a column compares its values with others, neither of them null. -/
abbrev Comparator := Operator → Value → Value → Bool

/-- The value of a row in a column. A column that the row does not have is null. -/
def Row.value (row : Row) (column : String) : Value :=
  (row.get? column).getD .null

namespace Truth

/-- Nothing compares with null. Inequality is the opposite of equality. -/
def ofComparison (compare : Comparator) (op : Operator) (x y : Value) : Truth :=
  if x.isNull || y.isNull then .unknown
  else if op = .ne then ofBool (!compare .eq x y)
  else ofBool (compare op x y)

def ofNullTest (negated : Bool) (x : Value) : Truth :=
  ofBool (x.isNull != negated)

/-- Whether a value is equal to one of some others. -/
def ofMembership (compare : Comparator) (negated : Bool) (x : Value) (ys : List Value) : Truth :=
  let found := (ys.map (ofComparison compare .eq x)).foldr Truth.or .no
  if negated then found.not else found

def ofRange (compare : Comparator) (x low high : Value) : Truth :=
  (ofComparison compare .gte x low).and (ofComparison compare .lte x high)

end Truth

/-- The truth of a comparison whose column has the given value. Equality and inequality with null are tests
for null. -/
def ConditionNode.truth (compare : Comparator) (x : Value) (n : ConditionNode) : Truth :=
  match Operator.ofText? n.operator with
  | none => .unknown
  | some .isNull => .ofNullTest false x
  | some .isNotNull => .ofNullTest true x
  | some .isIn => .ofMembership compare false x n.value.items
  | some .notIn => .ofMembership compare true x n.value.items
  | some .between =>
    match n.value.items with
    | [low, high] => .ofRange compare x low high
    | _ => .unknown
  | some .eq => if n.value.isNull then .ofNullTest false x else .ofComparison compare .eq x n.value
  | some .ne => if n.value.isNull then .ofNullTest true x else .ofComparison compare .ne x n.value
  | some op => .ofComparison compare op x n.value

/-- The truth of conditions in a row, whose columns compare in the given ways. -/
def Condition.truthIn (compare : String → Comparator) (row : Row) (cs : List Condition) : Truth :=
  truthOf (fun n => n.truth (compare n.column) (row.value n.column)) cs

/-- The value of an operand, if the given ones are those of columns. -/
def Operand.valueIn (value : String → Value) : Operand → Value
  | .column e => (e.column?.map value).getD .null
  | .value v => v

/-- The truth of an atom in a row. A search in texts is left open. -/
def Atom.truthIn (compare : String → Comparator) (row : Row) : Atom → Truth
  | .nullTest e negated => .ofNullTest negated (row.value (e.column?.getD ""))
  | .compare e op o =>
    let column := e.column?.getD ""
    .ofComparison (compare column) op (row.value column) (o.valueIn row.value)
  | .among e negated os =>
    let column := e.column?.getD ""
    .ofMembership (compare column) negated (row.value column) (os.map (Operand.valueIn row.value))
  | .between e low high =>
    let column := e.column?.getD ""
    .ofRange (compare column) (row.value column) (low.valueIn row.value) (high.valueIn row.value)
  | .constant holds => .ofBool holds
  | .search _ _ _ => .unknown
  | .notDeleted r => .ofNullTest false (row.value (r.expression.column?.getD ""))

/-- The truth of a chain of predicates in a row. -/
def Predicate.truthIn (compare : String → Comparator) (row : Row) (chain : Chain) : Truth :=
  truthOf (Atom.truthIn compare row) chain

theorem Operand.of?_parameter {column : String} {v : Value} {o : Operand}
    (h : Operand.of? .parameter column v = .ok o) : o = .value v := by
  unfold Operand.of? at h
  split at h <;> first | contradiction | cases h
  rfl

theorem Operand.valueIn_mapM {column : String} {vs : List Value} {os : List Operand}
    (h : vs.mapM (Operand.of? .parameter column) = .ok os) (value : String → Value) :
    os.map (valueIn value) = vs := by
  have hall := Except.mapM_eq_ok.mp h
  clear h
  induction hall with
  | nil => rfl
  | cons ho _ ih => rw [List.map_cons, ih, Operand.of?_parameter ho, valueIn]

/-- A comparison of a column with a plain name is as true as the atom that it is understood as. -/
theorem ConditionNode.truthIn_atom {n : ConditionNode} {a : Atom} (h : n.atom? .parameter = .ok a)
    (hcolumn : Text.isIdentifier n.column.toList = true) (compare : String → Comparator) (row : Row) :
    a.truthIn compare row = n.truth (compare n.column) (row.value n.column) := by
  obtain ⟨op, e, hoperator, he, hmeaning⟩ := ConditionNode.atom?_meaning h
  have hname : e.column? = some n.column := by
    rw [ColumnExpr.of?_name ⟨n.column, hcolumn⟩] at he
    cases he
    exact ColumnExpr.column?_ofName _
  unfold ConditionNode.truth
  rw [hoperator]
  cases hmeaning with
  | isNull => simp [Atom.truthIn, hname]
  | isNotNull => simp [Atom.truthIn, hname]
  | among hop hvalue hne hos =>
      have hitems := Operand.valueIn_mapM hos row.value
      rcases hop with rfl | rfl <;> simp [Atom.truthIn, hname, hvalue, Value.items, hitems]
  | constant hop hvalue =>
      rcases hop with rfl | rfl <;>
        simp [Atom.truthIn, hvalue, Value.items, Truth.ofMembership, Truth.ofBool, Truth.not]
  | between hvalue hlow hhigh =>
      simp [Atom.truthIn, hname, hvalue, Value.items, Operand.of?_parameter hlow,
        Operand.of?_parameter hhigh, Operand.valueIn]
  | eqNull hmode hvalue => simp [Atom.truthIn, hname, hvalue]
  | neNull hmode hvalue => simp [Atom.truthIn, hname, hvalue]
  | compare hop ho =>
      have hnull := Operand.isNull_eq_false ho
      cases op <;> simp_all [Atom.truthIn, Operand.of?_parameter ho, Operand.valueIn]

/-- Conditions on columns with plain names are as true as what is understood of them. -/
theorem Condition.truthIn_chain {cs : List Condition} {chain : Chain}
    (h : chain? .parameter cs = .ok chain)
    (hcolumns : ∀ n ∈ nodesOf cs, Text.isIdentifier n.column.toList = true)
    (compare : String → Comparator) (row : Row) :
    Predicate.truthIn compare row chain = truthIn compare row cs := by
  rw [Predicate.truthIn, Predicate.truthOf, truthIn, truthOf, links_chain cs chain h]
  exact fun n hn a ha => ConditionNode.truthIn_atom ha (hcolumns n hn) compare row

end TableGate
