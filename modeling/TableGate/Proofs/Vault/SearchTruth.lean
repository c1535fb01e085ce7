import TableGate.Proofs.Json.Value
import TableGate.Proofs.Query.RowTruth
import TableGate.Proofs.Vault.Rows
import TableGate.Proofs.Vault.Searched

/-! # Searching encrypted rows

A row is found by conditions if and only if it is found, as it is stored, by the conditions as they are
asked of the stored table. What hashes decide is whether two JSON values are written alike. That is the equality of
JSON values, except that zero is written with its sign. -/

namespace TableGate

/-- The comparators, but with an equality of their own in the given columns. -/
def equalIn (equal : Value → Value → Bool) (columns : List String) (compare : String → Comparator)
    (column : String) : Comparator :=
  fun op x y => if column ∈ columns ∧ op = .eq then equal x y else compare column op x y

/-- The comparators, but in the given columns values are equal if they are written alike. -/
def exactIn : List String → (String → Comparator) → String → Comparator :=
  equalIn fun x y => x = y

/-- The comparators, but with the equality of JSON values in the given columns. -/
def jsonIn : List String → (String → Comparator) → String → Comparator :=
  equalIn Value.equals

theorem equalIn_eq {columns : List String} {column : String} (h : column ∈ columns)
    (equal : Value → Value → Bool) (compare : String → Comparator) (x y : Value) :
    equalIn equal columns compare column .eq x y = equal x y := by
  simp [equalIn, h]

theorem equalIn_of_notMem {columns : List String} {column : String} (h : column ∉ columns)
    (equal : Value → Value → Bool) (compare : String → Comparator) :
    equalIn equal columns compare column = compare column := by
  funext op x y
  simp [equalIn, h]

/-- The values that a column is compared with: the items of a list, or the value itself. -/
def Value.operands : Value → List Value
  | .array items => items
  | value => [value]

theorem Value.mem_operands_of_mem_items {x y : Value} (h : y ∈ x.items) : y ∈ x.operands := by
  cases x with
  | array items => exact h
  | _ => cases h

theorem Value.mem_operands_of_scalar {x : Value} (h : ∀ items, x ≠ .array items) : x ∈ x.operands := by
  cases x with
  | array items => exact absurd rfl (h items)
  | _ => exact List.mem_singleton_self _

theorem Row.value_eq {row : Row} {column : String} {x : Value} (h : row.get? column = some x) :
    row.value column = x := by
  rw [Row.value, h, Option.getD_some]

theorem Row.value_eq_null {row : Row} {column : String} (h : row.get? column = none) :
    row.value column = .null := by
  rw [Row.value, h, Option.getD_none]

namespace Vault

variable {v : Vault} {table : String} {columns : List EncryptedColumn} {given stored : Row}

/-! ## Values of the stored row -/

/-- A value is null if and only if it is stored as null. -/
theorem Seals.isNull_value (h : v.Seals table columns given stored) {e : EncryptedColumn}
    (he : e ∈ columns) : (stored.value e.column).isNull = (given.value e.column).isNull := by
  cases hgiven : given.get? e.column with
  | none => rw [Row.value_eq_null hgiven, Row.value_eq_null (h.absent e he hgiven)]
  | some y =>
      by_cases hy : y = .null
      · subst hy
        rw [Row.value_eq hgiven, Row.value_eq (h.null e he hgiven).1]
      · obtain ⟨⟨key, nonce, -, hvalue⟩, -⟩ := h.envelope e he y hgiven hy
        rw [Row.value_eq hgiven, Row.value_eq hvalue]
        cases y <;> first | exact absurd rfl hy | rfl

/-- The value in a hash column is the hash of the value that was given, as long as nothing else was given
there. -/
theorem Seals.value_hash (hseparate : EncryptedColumn.Separate columns)
    (h : v.Seals table columns given stored) {e : EncryptedColumn} (he : e ∈ columns) {hash : String}
    (hhash : e.hashColumn = some hash)
    (hunused : given.get? e.column = none → given.get? hash = none) :
    stored.value hash = v.hashOperand (given.value e.column) := by
  cases hgiven : given.get? e.column with
  | none =>
      have hother : stored.get? hash = given.get? hash := by
        refine h.other hash fun f hf hfgiven => ⟨?_, fun hsame => ?_⟩
        · rintro rfl
          exact hseparate.hash_ne_column he hf hhash
        · rw [hseparate.eq_of_hash hf he hsame hhash, hgiven] at hfgiven
          cases hfgiven
      rw [Row.value_eq_null hgiven, Row.value_eq_null (hother.trans (hunused hgiven))]
      rfl
  | some y =>
      by_cases hy : y = .null
      · subst hy
        rw [Row.value_eq hgiven, Row.value_eq ((h.null e he hgiven).2 hash hhash)]
        rfl
      · rw [Row.value_eq hgiven, Row.value_eq ((h.envelope e he y hgiven hy).2 hash hhash),
          hashOperand_of_ne_null hy]

theorem Seals.value_other (h : v.Seals table columns given stored) {column : String}
    (hcolumn : column ∉ columns.map (·.column)) (hhash : column ∉ columns.filterMap (·.hashColumn)) :
    stored.value column = given.value column := by
  rw [Row.value, Row.value, h.other column fun e he _ => ⟨?_, fun hsame => ?_⟩]
  · rintro rfl
    exact hcolumn (List.mem_map_of_mem he)
  · exact hhash (List.mem_filterMap.mpr ⟨e, he, hsame⟩)

/-! ## Comparisons of hashes -/

theorem ofComparison_hashOperand {compare hashed : Comparator} {x y : Value}
    (hcompare : compare .eq x y = decide (x = y))
    (hhashed : ∀ s t, hashed .eq (.text s) (.text t) = decide (Value.text s = .text t))
    (hapart : v.hashValue x = v.hashValue y → x = y) {op : Operator} (hop : op = .eq ∨ op = .ne) :
    Truth.ofComparison hashed op (v.hashOperand x) (v.hashOperand y) =
      Truth.ofComparison compare op x y := by
  rw [Truth.ofComparison, Truth.ofComparison, isNull_hashOperand, isNull_hashOperand]
  by_cases hx : x = .null
  · simp [hx, Value.isNull]
  · by_cases hy : y = .null
    · simp [hy, Value.isNull]
    · have hsame : (Value.text (v.hashValue x) = .text (v.hashValue y)) ↔ x = y := by
        rw [Value.text.injEq]
        exact ⟨hapart, fun h => by rw [h]⟩
      rw [hashOperand_of_ne_null hx, hashOperand_of_ne_null hy]
      rcases hop with rfl | rfl <;> simp [hcompare, hhashed, hsame]

/-- A test for equality decides the same of a value as another test does of another value, if the operands of the
tests belong together in this way. Only an equality with a list of values, which SQL does not have, comes apart. -/
theorem truth_eq_of_operands {n : ConditionNode} {op : Operator}
    (hoperator : Operator.ofText? n.operator = some op) (hop : op ∈ [.eq, .ne, .isIn, .notIn])
    {column : String} {value x x' : Value} {f : Value → Value} {compare other : Comparator}
    (hitems : value.items = n.value.items.map f) (hself : op = .eq ∨ op = .ne → value = f n.value)
    (hscalar : op = .eq ∨ op = .ne → ∀ items, n.value ≠ .array items)
    (hnull : ∀ y, (f y).isNull = y.isNull) (hvalue : x'.isNull = x.isNull)
    (hequal : ∀ op, op = .eq ∨ op = .ne → ∀ y ∈ n.value.operands,
      Truth.ofComparison other op x' (f y) = Truth.ofComparison compare op x y) :
    { n with column, value : ConditionNode }.truth other x' = n.truth compare x := by
  have hmembership (negated : Bool) :
      Truth.ofMembership other negated x' value.items =
        Truth.ofMembership compare negated x n.value.items := by
    have hfound : value.items.map (Truth.ofComparison other .eq x') =
        n.value.items.map (Truth.ofComparison compare .eq x) := by
      rw [hitems, List.map_map]
      exact List.map_congr_left fun y hy => hequal .eq (.inl rfl) y (Value.mem_operands_of_mem_items hy)
    rw [Truth.ofMembership, Truth.ofMembership, hfound]
  have hmem (hop : op = .eq ∨ op = .ne) : n.value ∈ n.value.operands :=
    Value.mem_operands_of_scalar (hscalar hop)
  unfold ConditionNode.truth
  rw [hoperator]
  simp only [List.mem_cons, List.not_mem_nil, or_false] at hop
  rcases hop with rfl | rfl | rfl | rfl
  · simp only [hself (.inl rfl), hnull, hequal .eq (.inl rfl) _ (hmem (.inl rfl)), Truth.ofNullTest, hvalue]
  · simp only [hself (.inr rfl), hnull, hequal .ne (.inr rfl) _ (hmem (.inr rfl)), Truth.ofNullTest, hvalue]
  · exact hmembership false
  · exact hmembership true

/-- A comparison with hashed operands decides the same of the hash of a value as the given one does of the
value. -/
theorem truth_hashOperands {n : ConditionNode} {op : Operator}
    (hoperator : Operator.ofText? n.operator = some op) (hop : op ∈ [.eq, .ne, .isIn, .notIn])
    (hscalar : op = .eq ∨ op = .ne → ∀ items, n.value ≠ .array items) {compare hashed : Comparator}
    {x : Value} (hcompare : ∀ y, compare .eq x y = decide (x = y))
    (hhashed : ∀ s t, hashed .eq (.text s) (.text t) = decide (Value.text s = .text t))
    (hapart : ∀ y ∈ n.value.operands, v.hashValue x = v.hashValue y → x = y)
    (column : String) :
    { n with column, value := v.hashOperands n.value : ConditionNode }.truth hashed (v.hashOperand x) =
      n.truth compare x :=
  truth_eq_of_operands hoperator hop (items_hashOperands _) (fun hop => hashOperands_of_scalar (hscalar hop))
    hscalar isNull_hashOperand (isNull_hashOperand x)
    fun _ hop y hy => ofComparison_hashOperand (hcompare y) hhashed (hapart y hy) hop

/-- Tests with different notions of equality decide the same if the operands are equal in both or in neither. -/
theorem truth_equal {n : ConditionNode} {op : Operator} (hoperator : Operator.ofText? n.operator = some op)
    (hop : op ∈ [.eq, .ne, .isIn, .notIn]) (hscalar : op = .eq ∨ op = .ne → ∀ items, n.value ≠ .array items)
    {compare other : Comparator} {x : Value} (h : ∀ y ∈ n.value.operands, other .eq x y = compare .eq x y) :
    n.truth other x = n.truth compare x := by
  refine truth_eq_of_operands (f := id) hoperator hop (List.map_id _).symm (fun _ => rfl) hscalar
    (fun _ => rfl) rfl fun op hop y hy => ?_
  rw [Truth.ofComparison, Truth.ofComparison, id]
  rcases hop with rfl | rfl <;> simp [h y hy]

theorem qualified_of_isIdentifier {column : String} (h : Text.isIdentifier column.toList = true) :
    qualified column = ("", column) :=
  qualified_bare fun hdot => absurd (Identifier.isWordChar_of_mem ⟨column, h⟩ hdot) (by decide)

theorem Searched.isIdentifier {n m : ConditionNode} (h : v.Searched columns n m)
    (hcolumn : Text.isIdentifier n.column.toList = true)
    (hhashes : ∀ h ∈ columns.filterMap (·.hashColumn), Text.isIdentifier h.toList = true) :
    Text.isIdentifier m.column.toList = true := by
  cases h with
  | other hname => exact hcolumn
  | nullTest hname hoperator hop => exact hcolumn
  | hashed hname hoperator hop hhash =>
      rw [qualified_of_isIdentifier hcolumn, String.empty_append]
      exact hhashes _ (List.mem_filterMap.mpr ⟨_, List.mem_of_find?_eq_some hname, hhash⟩)

/-- SQL has no equality with a list of values. -/
theorem scalar_of_atom? {n : ConditionNode} {a : Atom} (h : n.atom? .parameter = .ok a) {op : Operator}
    (hoperator : Operator.ofText? n.operator = some op) (hop : op = .eq ∨ op = .ne)
    (items : List Value) : n.value ≠ .array items := by
  intro hvalue
  obtain ⟨op', e, hoperator', -, hmeaning⟩ := ConditionNode.atom?_meaning h
  rw [hoperator, Option.some.injEq] at hoperator'
  subst hoperator'
  cases hmeaning with
  | eqNull hmode hnull => simp [hvalue, Value.isNull] at hnull
  | neNull hmode hnull => simp [hvalue, Value.isNull] at hnull
  | compare _ ho => simp [hvalue, Operand.of?] at ho
  | among hin _ _ _ => rcases hin with rfl | rfl <;> simp at hop
  | constant hin _ => rcases hin with rfl | rfl <;> simp at hop
  | _ => simp at hop

/-- A comparison decides of a row what it decides, as it is asked of the stored table, of the stored row. -/
theorem truth_searched (hseparate : EncryptedColumn.Separate columns)
    (hseals : v.Seals table columns given stored)
    (hunused : ∀ e ∈ columns, ∀ h ∈ e.hashColumn, given.get? e.column = none → given.get? h = none)
    {n m : ConditionNode} (hcolumn : Text.isIdentifier n.column.toList = true)
    (hfresh : n.column ∉ columns.filterMap (·.hashColumn))
    (hapart : (EncryptedColumn.find? columns n.column).isSome → ∀ y ∈ n.value.operands,
      v.hashValue (given.value n.column) = v.hashValue y → given.value n.column = y)
    (hsearched : v.Searched columns n m) {a : Atom} (ha : m.atom? .parameter = .ok a)
    (compare : String → Comparator) :
    m.boolean = n.boolean ∧
      m.truth (exactIn (columns.filterMap (·.hashColumn)) compare m.column) (stored.value m.column) =
        n.truth (exactIn (columns.map (·.column)) compare n.column) (given.value n.column) := by
  have hbare := qualified_of_isIdentifier hcolumn
  cases hsearched with
  | other hname =>
      have hplain : n.column ∉ columns.map (·.column) := by
        rintro hmem
        obtain ⟨e, he, hsame⟩ := List.mem_map.mp hmem
        rw [hbare] at hname
        simpa [hsame] using List.find?_eq_none.mp hname e he
      refine ⟨rfl, ?_⟩
      rw [exactIn, equalIn_of_notMem hfresh, equalIn_of_notMem hplain, hseals.value_other hplain hfresh]
  | @nullTest e op hname hoperator hop =>
      have he : e ∈ columns := List.mem_of_find?_eq_some hname
      have hsame : e.column = n.column := by
        rw [hbare] at hname
        simpa using List.find?_some hname
      have hnull := hseals.isNull_value he
      rw [hsame] at hnull
      refine ⟨rfl, ?_⟩
      rw [ConditionNode.truth, ConditionNode.truth, hoperator]
      rcases hop with rfl | rfl <;> simp only [Truth.ofNullTest, hnull]
  | @hashed e op hash hname hoperator hop hhash =>
      have he : e ∈ columns := List.mem_of_find?_eq_some hname
      have hsame : e.column = n.column := by
        rw [hbare] at hname
        simpa using List.find?_some hname
      have hvalue := hseals.value_hash hseparate he hhash (hunused e he hash hhash)
      have hscalar : op = .eq ∨ op = .ne → ∀ items, n.value ≠ .array items := by
        intro hop items hitems
        exact scalar_of_atom? ha hoperator hop _ (by rw [hitems]; rfl)
      refine ⟨rfl, ?_⟩
      rw [hsame] at hvalue
      simp only [hbare, String.empty_append, hvalue]
      refine truth_hashOperands hoperator hop hscalar (fun y => ?_) (fun s t => ?_)
        (hapart ?_) hash
      · exact equalIn_eq (List.mem_map.mpr ⟨e, he, hsame⟩) _ compare _ _
      · exact equalIn_eq (List.mem_filterMap.mpr ⟨e, he, hhash⟩) _ compare _ _
      · rw [hbare] at hname
        rw [hname]
        rfl

/-- Values of which none is equal to another one that is written in another way are compared by both notions of
equality alike. -/
theorem truth_jsonIn {n m : ConditionNode} {x : Value} (hcolumn : Text.isIdentifier n.column.toList = true)
    (hwritten : (EncryptedColumn.find? columns n.column).isSome → ∀ y ∈ n.value.operands,
      x.equals y = true → x = y)
    (hsearched : v.Searched columns n m) {a : Atom} (ha : m.atom? .parameter = .ok a)
    (compare : String → Comparator) :
    n.truth (jsonIn (columns.map (·.column)) compare n.column) x =
      n.truth (exactIn (columns.map (·.column)) compare n.column) x := by
  have hbare := qualified_of_isIdentifier hcolumn
  cases hsearched with
  | other hname =>
      have hplain : n.column ∉ columns.map (·.column) := by
        rintro hmem
        obtain ⟨e, he, hsame⟩ := List.mem_map.mp hmem
        rw [hbare] at hname
        simpa [hsame] using List.find?_eq_none.mp hname e he
      rw [jsonIn, exactIn, equalIn_of_notMem hplain, equalIn_of_notMem hplain]
  | nullTest hname hoperator hop =>
      rw [ConditionNode.truth, ConditionNode.truth, hoperator]
      rcases hop with rfl | rfl <;> rfl
  | @hashed e op hash hname hoperator hop hhash =>
      have hscalar : op = .eq ∨ op = .ne → ∀ items, n.value ≠ .array items := by
        intro hop items hitems
        exact scalar_of_atom? ha hoperator hop _ (by rw [hitems]; rfl)
      rw [hbare] at hname
      have hmem : n.column ∈ columns.map (·.column) :=
        List.mem_map.mpr ⟨e, List.mem_of_find?_eq_some hname, by simpa using List.find?_some hname⟩
      refine truth_equal hoperator hop hscalar fun y hy => ?_
      rw [jsonIn, exactIn, equalIn_eq hmem, equalIn_eq hmem, Bool.eq_iff_iff, decide_eq_true_iff]
      exact ⟨hwritten (Option.isSome_of_eq_some hname) y hy, fun hsame => hsame ▸ x.equals_self⟩

/-- As long as no encrypted column gets in the way of another one, and hash columns are used for nothing
else, conditions on columns with plain names have the same truth in a row as they have in the encrypted row
when they are asked of the stored table, and so has the SQL that they become. The hashes of the values involved are
assumed not to collide. Two values in an encrypted column are equal here if they are written alike. This is the
equality of JSON values, unless zeros with different signs are compared. -/
theorem truthIn_encryptRow {connection table : String}
    (hseparate : EncryptedColumn.Separate (v.columns.get connection table)) {nonces : ℕ → Nonce}
    {row stored : Row} (hencrypt : v.encryptRow connection table nonces row = .ok stored)
    (hunused : ∀ e ∈ v.columns.get connection table, ∀ h ∈ e.hashColumn,
      row.get? e.column = none → row.get? h = none)
    {conditions searched : List Condition} {chain : Chain}
    (hsearch : v.searchConditions connection table conditions = .ok searched)
    (hchain : Condition.chain? .parameter searched = .ok chain)
    (hcolumns : ∀ n ∈ Condition.nodesOf conditions, Text.isIdentifier n.column.toList = true ∧
      n.column ∉ (v.columns.get connection table).filterMap (·.hashColumn))
    (hapart : ∀ n ∈ Condition.nodesOf conditions, (v.column? connection table n.column).isSome →
      ∀ y ∈ n.value.operands,
        v.hashValue (row.value n.column) = v.hashValue y → row.value n.column = y)
    (compare : String → Comparator) :
    let columns := v.columns.get connection table
    let plain := exactIn (columns.map (·.column)) compare
    let hashed := exactIn (columns.filterMap (·.hashColumn)) compare
    Condition.truthIn hashed stored searched = Condition.truthIn plain row conditions ∧
      ((∀ h ∈ columns.filterMap (·.hashColumn), Text.isIdentifier h.toList = true) →
        Predicate.truthIn hashed stored chain = Condition.truthIn plain row conditions) ∧
      ((∀ n ∈ Condition.nodesOf conditions, (v.column? connection table n.column).isSome →
          ∀ y ∈ n.value.operands, (row.value n.column).equals y = true → row.value n.column = y) →
        Condition.truthIn (jsonIn (columns.map (·.column)) compare) row conditions =
          Condition.truthIn plain row conditions) := by
  intro columns plain hashed
  have hseals := seals_encryptColumns hseparate hencrypt
  have hconverted := searchConditions_eq_ok.mp hsearch
  have hunderstood : ∀ n ∈ Condition.nodesOf conditions,
      ∃ m a, v.Searched columns n m ∧ Condition.applied (v.searchNode columns) n = m ∧
        m.atom? .parameter = .ok a := by
    refine (List.forall_mem_iff_of_forall₂ (hconverted.atoms hchain) ?_).mpr fun _ _ => trivial
    rintro n a ⟨m, hm, ha⟩
    exact iff_of_true ⟨m, a, searched_of_searchNode hm, Condition.applied_of_eq_ok hm, ha⟩ trivial
  have htree : Condition.truthIn hashed stored searched = Condition.truthIn plain row conditions := by
    rw [Condition.truthIn, Condition.truthIn, Condition.truthOf, Condition.truthOf, hconverted.2,
      Condition.links_mapAll conditions]
    intro n hn
    obtain ⟨m, a, hsearched, hm, ha⟩ := hunderstood n hn
    obtain ⟨hcolumn, hfresh⟩ := hcolumns n hn
    rw [hm]
    exact truth_searched hseparate hseals hunused hcolumn hfresh (hapart n hn) hsearched ha compare
  refine ⟨htree, fun hhashes => ?_, fun hwritten => ?_⟩
  · rw [Condition.truthIn_chain hchain, htree]
    rw [hconverted.2, Condition.nodesOf_mapAll, List.forall_mem_map]
    intro n hn
    obtain ⟨m, a, hsearched, hm, -⟩ := hunderstood n hn
    rw [hm]
    exact hsearched.isIdentifier (hcolumns n hn).1 hhashes
  · refine Condition.truthOf_congr fun n hn => ?_
    obtain ⟨m, a, hsearched, -, ha⟩ := hunderstood n hn
    exact truth_jsonIn (hcolumns n hn).1 (hwritten n hn) hsearched ha compare

/-- A row is searched for the value of its encrypted column, and for another one. -/
theorem truthIn_encryptRow_email :
    let keys : KeyRing := ⟨[⟨1, List.replicate 32 7⟩], ⟨1, List.replicate 32 7⟩⟩
    let vault := (Vault.new .standard keys [1, 2] .chacha20Poly1305).register "main" "users"
      (.searchable "email")
    let row : Row := .ofList [("email", .text "ada@example.org"), ("id", .int 1)]
    let nonces : ℕ → Nonce := fun _ => ⟨List.replicate 24 0, rfl⟩
    let conditions : List Condition := [.eq "id" (.int 1),
      .all [.compare "email" "NOT IN" (.array [.text "bob@example.org"]),
        .or (.eq "email" (.text "ada@example.org"))]]
    ∃ stored searched chain, vault.encryptRow "main" "users" nonces row = .ok stored ∧
      vault.searchConditions "main" "users" conditions = .ok searched ∧
      Condition.chain? .parameter searched = .ok chain ∧
      ∀ compare, Predicate.truthIn (exactIn ["email_hash"] compare) stored chain =
        Condition.truthIn (jsonIn ["email"] compare) row conditions := by
  intro keys vault row nonces conditions
  obtain ⟨stored, hencrypt⟩ : ∃ stored, vault.encryptRow "main" "users" nonces row = .ok stored :=
    Except.exists_of_isOk (by decide +kernel)
  obtain ⟨chain, h⟩ : ∃ chain, vault.searchConditions "main" "users" conditions >>=
      Condition.chain? .parameter = .ok chain := Except.exists_of_isOk (by decide +kernel)
  obtain ⟨searched, hsearch, hchain⟩ := Except.bind_eq_ok.mp h
  have hseparate : EncryptedColumn.Separate (vault.columns.get "main" "users") :=
    ⟨by decide, by decide, by decide⟩
  refine ⟨stored, searched, chain, hencrypt, hsearch, hchain, fun compare => ?_⟩
  obtain ⟨-, hsql, hjson⟩ := truthIn_encryptRow hseparate hencrypt (by decide +kernel) hsearch hchain
    (by decide +kernel) (by decide +kernel) compare
  exact (hsql (by decide +kernel)).trans (hjson (by decide +kernel)).symm

/-- A row with a zero is not found by the zero with the other sign, although the two are equal. -/
theorem truthIn_encryptRow_zero :
    let keys : KeyRing := ⟨[⟨1, List.replicate 32 7⟩], ⟨1, List.replicate 32 7⟩⟩
    let vault := (Vault.new .standard keys [1, 2] .chacha20Poly1305).register "main" "users"
      (.searchable "amount")
    let row : Row := .ofList [("amount", .real ⟨0⟩)]
    let nonces : ℕ → Nonce := fun _ => ⟨List.replicate 24 0, rfl⟩
    let conditions : List Condition := [.eq "amount" (.real ⟨9223372036854775808⟩)]
    let compare : String → Comparator := fun _ _ _ _ => false
    (Value.real ⟨0⟩).render = "0.0" ∧ (Value.real ⟨9223372036854775808⟩).render = "-0.0" ∧
      (Value.real ⟨0⟩).equals (.real ⟨9223372036854775808⟩) = true ∧
      vault.hashValue (.real ⟨0⟩) ≠ vault.hashValue (.real ⟨9223372036854775808⟩) ∧
      ∃ stored searched chain, vault.encryptRow "main" "users" nonces row = .ok stored ∧
        vault.searchConditions "main" "users" conditions = .ok searched ∧
        Condition.chain? .parameter searched = .ok chain ∧
        Condition.truthIn (jsonIn ["amount"] compare) row conditions = .yes ∧
        Condition.truthIn (jsonIn ["amount_hash"] compare) stored searched = .no ∧
        Predicate.truthIn (jsonIn ["amount_hash"] compare) stored chain = .no := by
  intro keys vault row nonces conditions compare
  have hsearched : (vault.encryptRow "main" "users" nonces row >>= fun stored =>
      vault.searchConditions "main" "users" conditions >>= fun searched =>
      Condition.chain? .parameter searched >>= fun chain =>
      Except.ok (Condition.truthIn (jsonIn ["amount_hash"] compare) stored searched,
        Predicate.truthIn (jsonIn ["amount_hash"] compare) stored chain)) = .ok (.no, .no) := by
    decide +kernel
  simp only [Except.bind_eq_ok, Except.ok.injEq, Prod.mk.injEq] at hsearched
  obtain ⟨stored, hencrypt, searched, hsearch, chain, hchain, htree, hsql⟩ := hsearched
  exact ⟨by decide +kernel, by decide +kernel, by decide +kernel, by decide +kernel, stored, searched, chain,
    hencrypt, hsearch, hchain, by decide +kernel, htree, hsql⟩

end Vault

end TableGate
