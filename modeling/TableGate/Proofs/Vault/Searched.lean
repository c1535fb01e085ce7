import TableGate.Proofs.Query.Comparisons
import TableGate.Proofs.Text.Pieces
import TableGate.Vault.Search

/-! # Conditions as they are asked of the stored table

The name of a column is what stands behind the last dot of its text. By it a comparison is found to be
about an encrypted column or not, and conditions are converted one comparison after the other. -/

namespace TableGate.Vault

/-! ## Names behind a qualifier -/

theorem qualified_dotted (qualifier : String) {name : String} (h : '.' ∉ name.toList) :
    qualified (qualifier ++ "." ++ name) = (qualifier ++ ".", name) := by
  have htext : (qualifier ++ "." ++ name).toList = qualifier.toList ++ '.' :: name.toList := by simp
  rw [qualified, htext, Text.cutLast?_append rfl (Text.beq_eq_false_of_notMem h)]
  simp

theorem qualified_bare {name : String} (h : '.' ∉ name.toList) : qualified name = ("", name) := by
  rw [qualified, Text.cutLast?_of_forall_not (Text.beq_eq_false_of_notMem h)]

/-- A text without a dot is a name. Any other one is a name behind a qualifier and a dot. -/
theorem exists_qualified (column : String) :
    '.' ∉ column.toList ∨
      ∃ qualifier name, '.' ∉ name.toList ∧ column = qualifier ++ "." ++ name := by
  rcases Text.exists_last (· == '.') column.toList with hnone | ⟨before, c, after, hc, hafter, htext⟩
  · exact .inl fun hmem => by simpa using hnone '.' hmem
  · refine .inr ⟨String.ofList before, String.ofList after, ?_, ?_⟩
    · rw [String.toList_ofList]
      exact fun hmem => by simpa using hafter '.' hmem
    · apply String.toList_inj.mp
      simpa [beq_iff_eq.mp hc] using htext

theorem qualified_append (column : String) {name : String} (h : '.' ∉ name.toList) :
    qualified ((qualified column).1 ++ name) = ((qualified column).1, name) := by
  rcases exists_qualified column with hbare | ⟨qualifier, old, hold, rfl⟩
  · rw [qualified_bare hbare, String.empty_append, qualified_bare h]
  · rw [qualified_dotted qualifier hold, qualified_dotted qualifier h]

/-! ## Hashed operands -/

variable {v : Vault}

theorem isNull_hashOperand (x : Value) : (v.hashOperand x).isNull = x.isNull := by
  cases x <;> rfl

theorem hashOperand_of_ne_null {x : Value} (h : x ≠ .null) :
    v.hashOperand x = .text (v.hashValue x) := by
  cases x <;> first | exact absurd rfl h | rfl

theorem isNull_hashOperands (x : Value) : (v.hashOperands x).isNull = x.isNull := by
  cases x <;> rfl

theorem items_hashOperands (x : Value) : (v.hashOperands x).items = x.items.map v.hashOperand := by
  cases x <;> rfl

theorem hashOperands_of_scalar {x : Value} (h : ∀ items, x ≠ .array items) :
    v.hashOperands x = v.hashOperand x := by
  cases x with
  | array items => exact absurd rfl (h items)
  | _ => rfl

/-- A hashed operand binds values if and only if the given one does. -/
theorem boundValues_hashOperands {n : ConditionNode} {op : Operator}
    (hoperator : Operator.ofText? n.operator = some op) (hop : op ∈ [.eq, .ne, .isIn, .notIn])
    (column : String) :
    { n with column, value := v.hashOperands n.value : ConditionNode }.boundValues = [] ↔
      n.boundValues = [] := by
  unfold ConditionNode.boundValues
  rw [hoperator]
  simp only [List.mem_cons, List.not_mem_nil, or_false] at hop
  rcases hop with rfl | rfl | rfl | rfl
  · simp [isNull_hashOperands]
  · simp [isNull_hashOperands]
  · simp [items_hashOperands]
  · simp [items_hashOperands]

/-! ## Comparisons -/

/-- What a comparison becomes when it is asked of the stored table. One of an encrypted column stays as it
is if it is a test for null. -/
inductive Searched (v : Vault) (columns : List EncryptedColumn) (n : ConditionNode) :
    ConditionNode → Prop where
  | other (hname : EncryptedColumn.find? columns (qualified n.column).2 = none) : Searched v columns n n
  | nullTest {e op} (hname : EncryptedColumn.find? columns (qualified n.column).2 = some e)
      (hoperator : Operator.ofText? n.operator = some op) (hop : op = .isNull ∨ op = .isNotNull) :
      Searched v columns n n
  | hashed {e op hash} (hname : EncryptedColumn.find? columns (qualified n.column).2 = some e)
      (hoperator : Operator.ofText? n.operator = some op) (hop : op ∈ [.eq, .ne, .isIn, .notIn])
      (hhash : e.hashColumn = some hash) :
      Searched v columns n
        { n with column := (qualified n.column).1 ++ hash, value := v.hashOperands n.value }

variable {columns : List EncryptedColumn}

theorem searched_of_searchNode {n m : ConditionNode} (h : v.searchNode columns n = .ok m) :
    v.Searched columns n m := by
  unfold searchNode at h
  split at h
  rename_i qualifier name hqualified
  split at h
  · rename_i hname
    cases h
    exact .other (by rw [hqualified, hname])
  · rename_i e hname
    have hfound : EncryptedColumn.find? columns (qualified n.column).2 = some e := by
      rw [hqualified, hname]
    split at h
    · cases h
    · rename_i hoperator
      cases h
      exact .nullTest hfound hoperator (.inl rfl)
    · rename_i hoperator
      cases h
      exact .nullTest hfound hoperator (.inr rfl)
    -- the operators that hashes can decide
    iterate 4
      · rename_i hoperator
        split at h
        · cases h
        · rename_i hash hhash
          cases h
          have hnode := Searched.hashed (v := v) hfound hoperator (by decide) hhash
          rwa [hqualified] at hnode
    · cases h

/-! ## Conditions -/

mutual

theorem searchCondition_eq_ok : ∀ c searched : Condition, v.searchCondition columns c = .ok searched ↔
    (∀ n ∈ c.nodes, ∃ m, v.searchNode columns n = .ok m) ∧
      searched = c.mapNodes (Condition.applied (v.searchNode columns))
  | .node n => by
      intro searched
      simp only [searchCondition, Except.bind_eq_ok, Except.pure_eq_ok, Condition.nodes,
        List.mem_singleton, forall_eq, Condition.mapNodes]
      constructor
      · rintro ⟨m, hm, rfl⟩
        exact ⟨⟨m, hm⟩, by rw [Condition.applied_of_eq_ok hm]⟩
      · rintro ⟨⟨m, hm⟩, rfl⟩
        exact ⟨m, hm, by rw [Condition.applied_of_eq_ok hm]⟩
  | .group items boolean => by
      intro searched
      simp only [searchCondition, Except.bind_eq_ok, Except.pure_eq_ok, searchAll_eq_ok items,
        Condition.Converted, Condition.nodes, Condition.mapNodes]
      constructor
      · rintro ⟨_, ⟨haccepted, rfl⟩, rfl⟩
        exact ⟨haccepted, rfl⟩
      · rintro ⟨haccepted, rfl⟩
        exact ⟨_, ⟨haccepted, rfl⟩, rfl⟩

/-- Conditions are asked of the stored table if and only if each of their comparisons can be. -/
theorem searchAll_eq_ok : ∀ cs searched : List Condition, v.searchAll columns cs = .ok searched ↔
    Condition.Converted (v.searchNode columns) cs searched
  | [] => by
      intro searched
      simp [searchAll, Condition.Converted, Condition.nodesOf, Condition.mapAll, eq_comm]
  | c :: cs => by
      intro searched
      simp only [searchAll, Except.bind_eq_ok, Except.pure_eq_ok, searchCondition_eq_ok c,
        searchAll_eq_ok cs, Condition.Converted, Condition.nodesOf, Condition.mapAll,
        List.mem_append, or_imp, forall_and]
      constructor
      · rintro ⟨_, ⟨hfirst, rfl⟩, _, ⟨hrest, rfl⟩, rfl⟩
        exact ⟨⟨hfirst, hrest⟩, rfl⟩
      · rintro ⟨⟨hfirst, hrest⟩, rfl⟩
        exact ⟨_, ⟨hfirst, rfl⟩, _, ⟨hrest, rfl⟩, rfl⟩

end

theorem searchConditions_eq_ok {connection table : String} {cs searched : List Condition} :
    v.searchConditions connection table cs = .ok searched ↔
      Condition.Converted (v.searchNode (v.columns.get connection table)) cs searched :=
  searchAll_eq_ok cs searched

end TableGate.Vault
