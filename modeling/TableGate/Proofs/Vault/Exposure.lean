import TableGate.Proofs.Sql.Expression
import TableGate.Proofs.Vault.Searched

/-! # Comparisons that reach an encrypted column

A condition is converted by the name behind the last dot of its column, as the text stands. SQL reads the
text without the blanks around it, and as a call of a function where it is one. Where the two readings
disagree a value is compared with what is encrypted. -/

namespace TableGate

/-- The expression is about an encrypted column. -/
def ColumnExpr.IsEncrypted (columns : List EncryptedColumn) (e : ColumnExpr) : Prop :=
  ∃ name ∈ e.column?, (EncryptedColumn.find? columns name).isSome

instance (columns : List EncryptedColumn) (e : ColumnExpr) : Decidable (e.IsEncrypted columns) :=
  inferInstanceAs (Decidable (∃ name ∈ e.column?, (EncryptedColumn.find? columns name).isSome = true))

/-- The expressions that an atom compares with values. A test for null compares with none. -/
def Atom.compared : Atom → List ColumnExpr
  | .compare e _ _ | .among e _ _ | .between e _ _ => [e]
  | .search _ columns _ => columns
  | .nullTest _ _ | .constant _ | .notDeleted _ => []

/-- The atom compares an encrypted column with values. -/
def Atom.Exposes (columns : List EncryptedColumn) (a : Atom) : Prop :=
  ∃ e ∈ a.compared, e.IsEncrypted columns

instance (columns : List EncryptedColumn) (a : Atom) : Decidable (a.Exposes columns) :=
  inferInstanceAs (Decidable (∃ e ∈ a.compared, e.IsEncrypted columns))

/-- The encrypted columns and their hash columns have identifiers for names, and no hash column is
encrypted itself. -/
structure EncryptedColumn.Named (columns : List EncryptedColumn) : Prop where
  column : ∀ e ∈ columns, Text.isIdentifier e.column.toList = true
  hash : ∀ e ∈ columns, ∀ h ∈ e.hashColumn, Text.isIdentifier h.toList = true ∧ find? columns h = none

namespace Vault

/-- SQL reads an encrypted column in the text. -/
def Reads (columns : List EncryptedColumn) (text : String) : Prop :=
  ∃ e, ColumnExpr.of? text = .ok e ∧ e.IsEncrypted columns

/-- The text that stands for a column where it is compared with values. -/
def searchedColumn (columns : List EncryptedColumn) (column : String) : String :=
  match (EncryptedColumn.find? columns (qualified column).2).bind (·.hashColumn) with
  | some hash => (qualified column).1 ++ hash
  | none => column

variable {v : Vault} {columns : List EncryptedColumn}

theorem searchedColumn_of_none {column : String}
    (h : EncryptedColumn.find? columns (qualified column).2 = none) :
    searchedColumn columns column = column := by
  rw [searchedColumn, h, Option.bind_none]

theorem searchedColumn_of_some {column : String} {e : EncryptedColumn} {hash : String}
    (h : EncryptedColumn.find? columns (qualified column).2 = some e) (hhash : e.hashColumn = some hash) :
    searchedColumn columns column = (qualified column).1 ++ hash := by
  rw [searchedColumn, h, Option.bind_some, hhash]

/-! ## Comparisons that are understood -/

theorem boundValues_of_nullTest {n : ConditionNode} {op : Operator}
    (hoperator : Operator.ofText? n.operator = some op) (hop : op = .isNull ∨ op = .isNotNull) :
    n.boundValues = [] := by
  rw [ConditionNode.boundValues, hoperator]
  rcases hop with rfl | rfl <;> rfl

theorem compared_of_meaning {n : ConditionNode} {op : Operator} {e : ColumnExpr} {a : Atom}
    (hoperator : Operator.ofText? n.operator = some op) (h : n.Meaning .parameter e op a) :
    a.compared = if n.boundValues = [] then [] else [e] := by
  unfold ConditionNode.boundValues
  rw [hoperator]
  cases h with
  | isNull => rfl
  | isNotNull => rfl
  | among hop hvalue hne hos => rcases hop with rfl | rfl <;> simp [hvalue, Value.items, hne, Atom.compared]
  | constant hop hvalue => rcases hop with rfl | rfl <;> simp [hvalue, Value.items, Atom.compared]
  | between hvalue hlow hhigh => simp [hvalue, Value.items, Atom.compared]
  | eqNull hmode hvalue => simp [hvalue, Atom.compared]
  | neNull hmode hvalue => simp [hvalue, Atom.compared]
  | compare hop ho =>
      have hvalue := Operand.isNull_eq_false ho
      cases op <;> simp_all [Atom.compared]

/-- A comparison exposes an encrypted column if it binds values and SQL reads one in its text. -/
theorem exposes_iff_reads {n : ConditionNode} {a : Atom} (h : n.atom? .parameter = .ok a) :
    a.Exposes columns ↔ n.boundValues ≠ [] ∧ Reads columns n.column := by
  obtain ⟨op, e, hoperator, he, hmeaning⟩ := ConditionNode.atom?_meaning h
  rw [Atom.Exposes, compared_of_meaning hoperator hmeaning]
  by_cases hbound : n.boundValues = []
  · simp [hbound]
  · simp [hbound, Reads, he]

/-- The same of a comparison that was converted before it was understood. -/
theorem exposes_iff_of_searched {n m : ConditionNode} (hsearched : v.Searched columns n m) {a : Atom}
    (ha : m.atom? .parameter = .ok a) :
    a.Exposes columns ↔ n.boundValues ≠ [] ∧ Reads columns (searchedColumn columns n.column) := by
  rw [exposes_iff_reads ha]
  cases hsearched with
  | other hname => rw [searchedColumn_of_none hname]
  | nullTest hname hoperator hop => simp [boundValues_of_nullTest hoperator hop]
  | hashed hname hoperator hop hhash =>
      rw [searchedColumn_of_some hname hhash, ne_eq, boundValues_hashOperands hoperator hop]

/-! ## The two readings of a text -/

theorem getLast?_pieces_qualified (column : String) :
    (Text.pieces (· == '.') column.toList).getLast? = some (qualified column).2.toList := by
  have hpieces {name : String} (h : '.' ∉ name.toList) :
      Text.pieces (· == '.') name.toList = [name.toList] :=
    Text.pieces_of_forall_not (Text.beq_eq_false_of_notMem h)
  rcases exists_qualified column with hbare | ⟨qualifier, name, hname, rfl⟩
  · rw [qualified_bare hbare, hpieces hbare]
    rfl
  · have htext : (qualifier ++ "." ++ name).toList = qualifier.toList ++ '.' :: name.toList := by simp
    rw [qualified_dotted qualifier hname, htext, Text.pieces_append_cons rfl, hpieces hname]
    simp

theorem getLast?_pieces_of_column? {cs : List Char} {p : Path} (hp : Path.of? cs = .ok p) {name : String}
    (hname : p.column? = some name) : (Text.pieces (· == '.') cs).getLast? = some name.toList := by
  rw [(Path.of?_eq_ok.mp hp).2]
  cases p with
  | column names =>
      obtain ⟨n, hn, rfl⟩ := Option.map_eq_some_iff.mp hname
      rw [Path.parts, List.getLast?_map, hn]
      rfl
  | all => cases hname
  | allOf names => cases hname

/-- If what stands behind the last dot is an identifier, it is the column that SQL reads. -/
theorem column?_of_isIdentifier {column : String}
    (hname : Text.isIdentifier (qualified column).2.toList = true) {e : ColumnExpr}
    (he : ColumnExpr.of? column = .ok e) {name : String} (hcolumn : e.column? = some name) :
    name = (qualified column).2 := by
  have hword : ∀ c ∈ (qualified column).2.toList, Text.isWordChar c = true := fun c hc =>
    Identifier.isWordChar_of_mem ⟨_, hname⟩ hc
  have hblank (b : Char) (hb : Text.isBlank b = true) : (b == '.') = false := by
    rw [beq_eq_false_iff_ne]
    rintro rfl
    exact absurd hb (by decide)
  have hlast := Text.getLast?_pieces_trimChars hblank (getLast?_pieces_qualified column) fun c hc =>
    Text.isBlank_of_isWordChar (hword c hc)
  unfold ColumnExpr.of? at he
  split at he
  · -- behind the last dot stands the closing parenthesis of the call, which is no part of an identifier
    rename_i f a hcall
    obtain ⟨before, inner, htrim, -⟩ := Text.aggregateCall?_eq_some hcall
    rw [htrim, ← List.cons_append, ← List.append_assoc,
      Text.getLast?_pieces_append _ (by simp)] at hlast
    obtain ⟨last, -, hclosed⟩ := Option.map_eq_some_iff.mp hlast
    exact absurd (hword ')' (by simp [← hclosed])) (by decide)
  · obtain ⟨p, hp, rfl⟩ := Except.map_eq_ok.mp he
    rw [getLast?_pieces_of_column? hp hcolumn, Option.some.injEq] at hlast
    exact String.toList_inj.mp hlast

/-! ## Conditions -/

/-- A comparison with values reaches no encrypted column if and only if an identifier stands behind the
last dot of each column that SQL reads as an encrypted one. -/
theorem not_reads_iff_of_searched (hnamed : EncryptedColumn.Named columns) {n m : ConditionNode}
    (hsearched : v.Searched columns n m) (hbound : n.boundValues ≠ []) :
    ¬Reads columns (searchedColumn columns n.column) ↔
      (Reads columns n.column → Text.isIdentifier (qualified n.column).2.toList = true) := by
  cases hsearched with
  | other hname =>
      rw [searchedColumn_of_none hname]
      constructor
      · exact fun hnot hreads => absurd hreads hnot
      · rintro hidentifier ⟨e, he, name, hcolumn, hencrypted⟩
        have hread := hidentifier ⟨e, he, name, hcolumn, hencrypted⟩
        rw [column?_of_isIdentifier hread he hcolumn, hname] at hencrypted
        simp at hencrypted
  | nullTest hname hoperator hop => exact absurd (boundValues_of_nullTest hoperator hop) hbound
  | @hashed f op hash hname hoperator hop hhash =>
      have hfound := List.find?_some hname
      have hmem : f ∈ columns := List.mem_of_find?_eq_some hname
      rw [searchedColumn_of_some hname hhash]
      refine iff_of_true ?_ fun _ => ?_
      · rintro ⟨e, he, name, hcolumn, hencrypted⟩
        obtain ⟨hidentifier, hfresh⟩ := hnamed.hash f hmem hash hhash
        have hdot : '.' ∉ hash.toList := fun hdot =>
          absurd (Identifier.isWordChar_of_mem ⟨hash, hidentifier⟩ hdot) (by decide)
        have hqualified := qualified_append n.column hdot
        have hread : name = hash := by
          rw [column?_of_isIdentifier (by rw [hqualified]; exact hidentifier) he hcolumn, hqualified]
        rw [hread, hfresh] at hencrypted
        simp at hencrypted
      · rw [← beq_iff_eq.mp hfound]
        exact hnamed.column f hmem

/-- Conditions that were converted and then understood compare no encrypted column with values if and only
if SQL reads no encrypted column in the text that stands for the column of such a comparison. Where all
columns have identifiers for names, it is enough, and needed, that an identifier stands behind the last dot
of every column that is read as an encrypted one. -/
theorem exposes_iff {connection table : String} {conditions searched : List Condition} {chain : Chain}
    (hsearch : v.searchConditions connection table conditions = .ok searched)
    (hchain : Condition.chain? .parameter searched = .ok chain) :
    let columns := v.columns.get connection table
    ((∀ a ∈ Predicate.atomsOf chain, ¬a.Exposes columns) ↔
      ∀ n ∈ Condition.nodesOf conditions, n.boundValues ≠ [] →
        ¬Reads columns (searchedColumn columns n.column)) ∧
    (EncryptedColumn.Named columns →
      ((∀ a ∈ Predicate.atomsOf chain, ¬a.Exposes columns) ↔
        ∀ n ∈ Condition.nodesOf conditions, n.boundValues ≠ [] → Reads columns n.column →
          Text.isIdentifier (qualified n.column).2.toList = true)) := by
  intro columns
  have hatoms := (searchConditions_eq_ok.mp hsearch).atoms hchain
  constructor
  · refine (List.forall_mem_iff_of_forall₂ hatoms ?_).symm
    rintro n a ⟨m, hm, ha⟩
    rw [exposes_iff_of_searched (searched_of_searchNode hm) ha, not_and]
  · intro hnamed
    refine (List.forall_mem_iff_of_forall₂ hatoms ?_).symm
    rintro n a ⟨m, hm, ha⟩
    have hsearched := searched_of_searchNode hm
    rw [exposes_iff_of_searched hsearched ha, not_and]
    exact forall_congr' fun hbound => (not_reads_iff_of_searched hnamed hsearched hbound).symm

/-- Of two comparisons of an encrypted column, one is converted and the other one is a test for null. -/
theorem exposes_iff_email :
    let keys : KeyRing := ⟨[⟨1, List.replicate 32 7⟩], ⟨1, List.replicate 32 7⟩⟩
    let vault := (Vault.new .standard keys [1, 2] .chacha20Poly1305).register "main" "users"
      (.searchable "email")
    let conditions : List Condition := [.eq "users.email" (.text "ada@example.org"), .isNull "email"]
    ∃ searched chain, vault.searchConditions "main" "users" conditions = .ok searched ∧
      Condition.chain? .parameter searched = .ok chain ∧
      ∀ a ∈ Predicate.atomsOf chain, ¬a.Exposes (vault.columns.get "main" "users") := by
  intro keys vault conditions
  obtain ⟨chain, h⟩ : ∃ chain, vault.searchConditions "main" "users" conditions >>=
      Condition.chain? .parameter = .ok chain := Except.exists_of_isOk (by decide +kernel)
  obtain ⟨searched, hsearch, hchain⟩ := Except.bind_eq_ok.mp h
  have hnamed : EncryptedColumn.Named (vault.columns.get "main" "users") :=
    ⟨by decide +kernel, by decide +kernel⟩
  have hread : ∀ n ∈ Condition.nodesOf conditions,
      Text.isIdentifier (qualified n.column).2.toList = true := by decide +kernel
  exact ⟨searched, chain, hsearch, hchain,
    ((exposes_iff hsearch hchain).2 hnamed).mpr fun n hn _ _ => hread n hn⟩

/-- With a blank behind its name an encrypted column is compared with a value in the clear. -/
theorem exposes_spaced :
    let keys : KeyRing := ⟨[⟨1, List.replicate 32 7⟩], ⟨1, List.replicate 32 7⟩⟩
    let vault := (Vault.new .standard keys [1, 2] .chacha20Poly1305).register "main" "users"
      (.searchable "email")
    let conditions : List Condition := [.eq "email " (.text "ada@example.org")]
    ∃ searched chain, vault.searchConditions "main" "users" conditions = .ok searched ∧
      Condition.chain? .parameter searched = .ok chain ∧
      ¬∀ a ∈ Predicate.atomsOf chain, ¬a.Exposes (vault.columns.get "main" "users") := by
  intro keys vault conditions
  obtain ⟨chain, h, hexposes⟩ := Except.exists_of_any
    (x := vault.searchConditions "main" "users" conditions >>= Condition.chain? .parameter)
    (p := fun chain => decide
      (¬∀ a ∈ Predicate.atomsOf chain, ¬a.Exposes (vault.columns.get "main" "users")))
    (by decide +kernel)
  obtain ⟨searched, hsearch, hchain⟩ := Except.bind_eq_ok.mp h
  exact ⟨searched, chain, hsearch, hchain, of_decide_eq_true hexposes⟩

end Vault

end TableGate
