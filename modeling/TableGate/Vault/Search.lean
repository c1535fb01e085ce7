import TableGate.Query.Spec
import TableGate.Sql.Column
import TableGate.Vault.Codec

/-!
# Searching encrypted columns

A condition on an encrypted column becomes a condition on its hash column, as far as hashes can decide
it: equality, membership, and tests for null.
-/

namespace TableGate.Vault

/-- The hash of an operand; null stays null. -/
def hashOperand (v : Vault) : Value → Value
  | .null => .null
  | value => .text (v.hashValue value)

/-- The hash of an operand, or the list of the hashes of its items. -/
def hashOperands (v : Vault) : Value → Value
  | .array items => .array (items.map v.hashOperand)
  | value => v.hashOperand value

/-- The qualifier, with its dot, and the name of a column. -/
def qualified (column : String) : String × String :=
  match Text.cutLast? (· == '.') column.toList with
  | some (qualifier, name) => (String.ofList qualifier ++ ".", String.ofList name)
  | none => ("", column)

/-- A comparison as it is asked of the stored table. -/
def searchNode (v : Vault) (columns : List EncryptedColumn) (n : ConditionNode) :
    Except Fault ConditionNode :=
  let (qualifier, name) := qualified n.column
  match EncryptedColumn.find? columns name with
  | none => .ok n
  | some e =>
    match Operator.ofText? n.operator with
    | none => .error (.querySpec (.unknownOperator n.operator))
    | some .isNull | some .isNotNull => .ok n
    | some .eq | some .ne | some .isIn | some .notIn =>
      match e.hashColumn with
      | none => .error (.querySpec (.notSearchable n.column))
      | some hashColumn =>
        .ok { n with column := qualifier ++ hashColumn, value := v.hashOperands n.value }
    | some _ => .error (.querySpec (.equalityOnly n.column))

mutual
def searchCondition (v : Vault) (columns : List EncryptedColumn) : Condition → Except Fault Condition
  | .node n => do return .node (← v.searchNode columns n)
  | .group items boolean => do return .group (← v.searchAll columns items) boolean
def searchAll (v : Vault) (columns : List EncryptedColumn) :
    List Condition → Except Fault (List Condition)
  | [] => .ok []
  | c :: rest => do
    let first ← v.searchCondition columns c
    return first :: (← v.searchAll columns rest)
end

/-- Conditions on a table as they are asked of the stored table. -/
def searchConditions (v : Vault) (connection table : String) (conditions : List Condition) :
    Except Fault (List Condition) :=
  v.searchAll (v.columns.get connection table) conditions

/-- The name of a table without its alias. -/
def baseTable (table : String) : String :=
  (Text.splitAlias table).1

def searchJoin (v : Vault) (connection : String) (join : JoinSpec) : Except Fault JoinSpec := do
  return { join with
    filters := ← v.searchConditions connection (baseTable join.table) join.filters }

def searchClauses (v : Vault) (connection table : String) (clauses : SelectClauses) :
    Except Fault SelectClauses := do
  let conditions ← v.searchConditions connection (baseTable table) clauses.conditions
  let joins ← clauses.joins.mapM (v.searchJoin connection)
  return { clauses with conditions, joins }

mutual
/-- A query of a table, as it is asked of the stored tables. -/
def searchQuery (v : Vault) (connection table : String) : QuerySpec → Except Fault QuerySpec
  | .mk clauses union ctes => do
    let clauses ← v.searchClauses connection table clauses
    let ctes ← v.searchCtes connection ctes
    return .mk clauses (← v.searchUnion connection union) ctes
def searchUnion (v : Vault) (connection : String) : UnionSpec → Except Fault UnionSpec
  | .none => .ok .none
  | .member table q all => do return .member table (← v.searchQuery connection table q) all
def searchCtes (v : Vault) (connection : String) : CteSpecs → Except Fault CteSpecs
  | .nil => .ok .nil
  | .raw name fragment rest => do return .raw name fragment (← v.searchCtes connection rest)
  | .query name table q rest => do
    let q ← v.searchQuery connection table q
    return .query name table q (← v.searchCtes connection rest)
end

end TableGate.Vault
