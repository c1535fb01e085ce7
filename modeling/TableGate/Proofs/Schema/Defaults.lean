import TableGate.Proofs.Schema.Drafts
import TableGate.Proofs.Sql.StringLiterals

/-! # Defaults in schema statements

The only text of a caller's that a planned statement about a table holds, besides names, is that of the defaults
which are texts. Each stands in a literal of its own, so that the literals which a database reads are these
defaults, in their order, as far as the database keeps their backslashes. -/

namespace TableGate

open Literal (Holds)
open Literal.Scan (Unquoted)

variable {d : Dialect}

/-- The text of a value that is a text. -/
def Literal.textsOf : Value → List String
  | .text t => [t]
  | _ => []

/-- The default of a column if it is a text. A column that the database counts itself has none. -/
def ColumnDefinition.textDefaults (c : ColumnDefinition) : List String :=
  if c.type.isAutoIncrement then [] else c.default.toList.flatMap Literal.textsOf

def AlterAction.textDefaults : AlterAction → List String
  | .add c => c.textDefaults
  | .modify c => c.textDefaults
  | .drop _ => []
  | .rename _ _ => []

/-! ## Numbers and types -/

namespace Literal.Scan.Unquoted

theorem append {xs ys : List Char} (hxs : Unquoted xs) (hys : Unquoted ys) : Unquoted (xs ++ ys) :=
  List.forall_mem_append.mpr ⟨hxs, hys⟩

theorem of_isDigit {xs : List Char} (h : ∀ c ∈ xs, c.isDigit = true) : Unquoted xs :=
  fun c hc => Text.notMem_of_all (by decide) (h c hc)

theorem digits (n : ℕ) : Unquoted (Text.digits n) :=
  of_isDigit fun _ => Text.isDigit_of_mem_digits

theorem ofNat (n : ℕ) : Unquoted (Text.ofNat n).toList := by
  rw [Text.ofNat, String.toList_ofList]
  exact digits n

theorem ofInt (n : ℤ) : Unquoted (Text.ofInt n).toList := by
  unfold Text.ofInt
  split
  · rw [String.toList_append]
    exact append (by decide) (ofNat _)
  · exact ofNat _

theorem of_subset {xs ys : List Char} (h : Unquoted ys) (hsub : xs ⊆ ys) : Unquoted xs :=
  fun c hc => h c (hsub hc)

theorem cons {c : Char} {xs : List Char} (hc : c ∉ ['\'', '"', '\x60']) (h : Unquoted xs) :
    Unquoted (c :: xs) :=
  List.forall_mem_cons.mpr ⟨hc, h⟩

theorem zeros (n : ℕ) : Unquoted (Scientific.zeros n) := by
  intro c hc
  rw [List.eq_of_mem_replicate hc]
  decide

theorem scientific {s : Scientific} (h : Unquoted s.digits) : Unquoted s.text := by
  have htake (n : ℕ) : Unquoted (s.digits.take n) := h.of_subset (List.take_subset n _)
  have hdrop (n : ℕ) : Unquoted (s.digits.drop n) := h.of_subset (List.drop_subset n _)
  unfold Scientific.text
  split
  · unfold Scientific.positional
    split
    · exact .cons (by decide) (.cons (by decide) (.append (zeros _) h))
    · refine .append (.append (htake _) (zeros _)) (.cons (by decide) ?_)
      split
      · decide
      · exact hdrop _
  · unfold Scientific.exponential
    refine .append (.append (htake 1) ?_) (.cons (by decide) (.cons ?_ (digits _)))
    · split
      · decide
      · exact .cons (by decide) (hdrop 1)
    · split <;> decide

theorem magnitude (m : ℕ) (q : ℤ) (lowestBinade : Bool) :
    Unquoted (Shortest.ofMagnitude m q lowestBinade).text := by
  refine scientific ?_
  simp only [Shortest.ofMagnitude]
  split
  · have hsub (ds : List Char) : Shortest.withoutTrailingZeros ds ⊆ ds := by
      intro c hc
      have hmem := (List.dropWhile_suffix _).subset (List.mem_reverse.mp hc)
      exact List.mem_reverse.mp hmem
    exact (digits _).of_subset (hsub _)
  · exact digits m

theorem real (x : Binary64) : Unquoted x.chars := by
  have hmagnitude : Unquoted (if x.significand = 0 then ['0', '.', '0']
      else (Shortest.ofMagnitude x.significand x.exponent (x.exponentField ≤ 1)).text) := by
    split
    · decide
    · exact magnitude _ _ _
  simp only [Binary64.chars]
  generalize (if x.significand = 0 then ['0', '.', '0']
    else (Shortest.ofMagnitude x.significand x.exponent (x.exponentField ≤ 1)).text) = text at hmagnitude ⊢
  split
  · exact .cons (by decide) hmagnitude
  · exact hmagnitude

end Literal.Scan.Unquoted

theorem ColumnDefinition.unquoted_typeText (d : Dialect) (c : ColumnDefinition) :
    Unquoted (c.typeText d).toList := by
  unfold typeText
  split
  all_goals first
    | decide
    | (simp only [String.toList_append]
       repeat' apply Literal.Scan.Unquoted.append
       all_goals first | decide | exact Literal.Scan.Unquoted.ofNat _)

/-- A default stands in the literal for it, if it is a text, and is written without quotation marks otherwise. -/
theorem Literal.holds_ofDefault? {v : Value} {literal : String} (h : ofDefault? v = .ok literal) :
    Holds d literal.toList (textsOf v) := by
  cases v with
  | null => cases h; exact .of_unquoted (by decide)
  | bool b => cases b <;> cases h <;> exact .of_unquoted (by decide)
  | int n => cases h; exact .of_unquoted (.ofInt n)
  | real x =>
      cases h
      exact .of_unquoted (String.toList_ofList ▸ .real x)
  | text t => cases h; exact .ofText t
  | array _ => cases h
  | object _ => cases h

/-! ## Clauses -/

/-- The type of a clause has no quotation mark, and its default, if it has one, holds the texts. -/
structure ColumnClause.Defaults (d : Dialect) (c : ColumnClause) (ts : List String) : Prop where
  type : Unquoted c.type.toList
  counted : c.autoIncrement = true → c.default = none
  default : match c.default with
    | some literal => Holds d literal.toList ts
    | none => ts = []

namespace ColumnClause.Defaults

variable {c : ColumnDefinition} {clause : ColumnClause} {ts : List String}

theorem unique (h : clause.Defaults d ts) : ColumnClause.Defaults d { clause with unique := true } ts :=
  ⟨h.type, h.counted, h.default⟩

/-- A clause holds no text but that of its default. -/
theorem holds (h : clause.Defaults d ts) : Holds d (clause.print d).toList ts := by
  have hnamed : Holds d (d.quoted clause.name ++ " " ++ clause.type).toList [] := by
    rw [String.toList_append, String.toList_append]
    exact ((Holds.quoted clause.name).append_code (by decide)).append_code h.type
  have hnull : Unquoted (nullability d clause.nullable).toList := by
    unfold nullability
    split
    · decide
    · split <;> decide
  have hdefault := h.default
  obtain ⟨filled, hprint, hfilled⟩ : ∃ filled,
      clause.print d = (if clause.unique then filled ++ " UNIQUE" else filled) ∧
        Holds d filled.toList ts := by
    refine ⟨_, rfl, ?_⟩
    split
    · rename_i hcounted
      rw [h.counted hcounted] at hdefault
      exact hdefault ▸ hnamed
    · have hnullable := hnamed.append_code hnull
      cases hliteral : clause.default with
      | none =>
          have hts : ts = [] := by simpa [hliteral] using hdefault
          simpa [hts] using hnullable
      | some literal =>
          have hholds : Holds d literal.toList ts := by simpa [hliteral] using hdefault
          have hgiven : Holds d (" DEFAULT ".toList ++ literal.toList) ts := .code (by decide) hholds
          simpa using hnullable.append hgiven (by simp)
  rw [hprint]
  split
  · rw [String.toList_append]
    exact hfilled.append_code (by decide)
  · exact hfilled

theorem of_clause? (h : c.clause? d = .ok clause) : clause.Defaults d c.textDefaults := by
  simp only [ColumnDefinition.clause?, Except.bind_eq_ok] at h
  obtain ⟨name, -, h⟩ := h
  unfold ColumnDefinition.textDefaults
  split at h
  · rename_i hcounted
    simp only [pure_bind, Except.pure_eq_ok] at h
    subst h
    exact ⟨c.unquoted_typeText d, fun _ => rfl, by simp [hcounted]⟩
  · rename_i hcounted
    rw [if_neg hcounted]
    cases hdefault : c.default with
    | none =>
        simp only [hdefault, pure_bind, Except.pure_eq_ok] at h
        subst h
        exact ⟨c.unquoted_typeText d, fun _ => rfl, rfl⟩
    | some v =>
        simp only [hdefault, Except.bind_eq_ok, Except.pure_eq_ok] at h
        obtain ⟨literal, hliteral, _, rfl, rfl⟩ := h
        exact ⟨c.unquoted_typeText d, fun h => absurd h hcounted,
          by simpa using Literal.holds_ofDefault? hliteral⟩

theorem of_fixed (htype : Unquoted clause.type.toList) (hcounted : clause.default = none) :
    clause.Defaults d [] :=
  ⟨htype, fun _ => hcounted, by simp [hcounted]⟩

theorem of_encryptedClause? (h : c.encryptedClause? = .ok clause) : clause.Defaults d [] := by
  simp only [ColumnDefinition.encryptedClause?, Except.bind_eq_ok, Except.pure_eq_ok] at h
  obtain ⟨_, _, rfl⟩ := h
  exact of_fixed (show Unquoted "TEXT".toList by decide) rfl

theorem of_hash? {column : String} (h : ColumnClause.hash? column = .ok clause) : clause.Defaults d [] := by
  simp only [ColumnClause.hash?, Except.bind_eq_ok, Except.pure_eq_ok] at h
  obtain ⟨_, _, rfl⟩ := h
  exact of_fixed (show Unquoted "VARCHAR(64)".toList by decide) rfl

theorem of_timestamp? {column : String} (h : ColumnClause.timestamp? column = .ok clause) :
    clause.Defaults d [] := by
  simp only [ColumnClause.timestamp?, Except.bind_eq_ok, Except.pure_eq_ok] at h
  obtain ⟨_, _, rfl⟩ := h
  exact of_fixed (show Unquoted "TIMESTAMP".toList by decide) rfl

end ColumnClause.Defaults

/-- An encrypted column has no default. -/
theorem SchemaPlanner.textDefaults_of_encryptedColumn? {p : SchemaPlanner} {c : ColumnDefinition}
    {encryption : Option TableEncryption} {e : EncryptedColumn}
    (h : p.encryptedColumn? c encryption = .ok e) : c.textDefaults = [] := by
  unfold encryptedColumn? at h
  split at h
  · cases h
  · split at h
    · cases h
    · rename_i hdefault
      have hnone : c.default = none := by simpa using hdefault
      simp [ColumnDefinition.textDefaults, hnone]

/-! ## Statements -/

namespace SchemaStatement

variable {name column : Identifier} {clause : ColumnClause} {ts : List String}

/-- The statement holds these texts as literals, and nothing else in single quotes. -/
def Texts (d : Dialect) (s : SchemaStatement) (ts : List String) : Prop :=
  Holds d (s.print d).toList ts

theorem holds_alter (d : Dialect) (name : Identifier) : Holds d (alter d name).toList [] := by
  rw [alter, String.toList_append]
  exact .code (by decide) (.quoted name)

/-- The beginning of a statement about one column. -/
theorem holds_alterColumn {what : String} (hwhat : Unquoted what.toList) (hne : what.toList ≠ [])
    (name column : Identifier) : Holds d (alter d name ++ what ++ d.quoted column).toList [] := by
  rw [String.toList_append, String.toList_append, List.append_assoc]
  exact (holds_alter d name).between hwhat hne (.quoted column)

theorem texts_createTable {clauses : List ColumnClause}
    (h : SplitOver (fun clause ts => clause.Defaults d ts) clauses ts) :
    (createTable name clauses).Texts d ts := by
  have hclauses : SplitOver (fun part ts => Holds d part.toList ts) (clauses.map (ColumnClause.print d)) ts := by
    induction h with
    | nil => exact .nil
    | cons hclause _ ih => exact .cons hclause.holds ih
  have hbefore : Unquoted " (".toList := by decide
  have hbehind : Unquoted ")".toList := by decide
  have hlist := (Holds.intercalate hclauses).append_code hbehind
  have hopen : Holds d ("CREATE TABLE ".toList ++ (d.quoted name).toList) [] :=
    .code (by decide) (.quoted name)
  have hall := hopen.between hbefore (by decide) hlist
  show Holds d ("CREATE TABLE " ++ d.quoted name ++ " (" ++
    String.intercalate ", " (clauses.map (ColumnClause.print d)) ++ ")").toList ts
  simpa using hall

theorem texts_addColumn (h : clause.Defaults d ts) : (addColumn name clause).Texts d ts := by
  show Holds d (alter d name ++ " ADD COLUMN " ++ clause.print d).toList ts
  rw [String.toList_append, String.toList_append, List.append_assoc]
  exact (holds_alter d name).between (by decide) (by decide) h.holds

theorem texts_modifyColumn (h : clause.Defaults d ts) : (modifyColumn name clause).Texts d ts := by
  show Holds d (alter d name ++ " MODIFY COLUMN " ++ clause.print d).toList ts
  rw [String.toList_append, String.toList_append, List.append_assoc]
  exact (holds_alter d name).between (by decide) (by decide) h.holds

theorem texts_setType {type : String} (h : Unquoted type.toList) : (setType name column type).Texts d [] := by
  show Holds d (alter d name ++ " ALTER COLUMN " ++ d.quoted column ++ " TYPE " ++ type).toList []
  rw [String.toList_append, String.toList_append]
  exact ((holds_alterColumn (by decide) (by decide) name column).append_code (by decide)).append_code h

theorem texts_setNullable (nullable : Bool) : (setNullable name column nullable).Texts d [] := by
  show Holds d (alter d name ++ " ALTER COLUMN " ++ d.quoted column ++
    if nullable then " DROP NOT NULL" else " SET NOT NULL").toList []
  rw [String.toList_append]
  exact (holds_alterColumn (by decide) (by decide) name column).append_code (by cases nullable <;> decide)

theorem texts_setDefault {literal : String} (h : Holds d literal.toList ts) :
    (setDefault name column literal).Texts d ts := by
  show Holds d (alter d name ++ " ALTER COLUMN " ++ d.quoted column ++ " SET DEFAULT " ++ literal).toList ts
  rw [String.toList_append, String.toList_append, List.append_assoc]
  exact (holds_alterColumn (by decide) (by decide) name column).between (by decide) (by decide) h

theorem texts_dropColumn : (dropColumn name column).Texts d [] :=
  holds_alterColumn (by decide) (by decide) name column

theorem texts_renameColumn {target : Identifier} : (renameColumn name column target).Texts d [] := by
  show Holds d (alter d name ++ " RENAME COLUMN " ++ d.quoted column ++ " TO " ++ d.quoted target).toList []
  rw [String.toList_append, String.toList_append, List.append_assoc]
  exact (holds_alterColumn (by decide) (by decide) name column).between (by decide) (by decide) (.quoted target)

theorem texts_dropIndex : (dropIndex name).Texts d [] := by
  show Holds d ("DROP INDEX IF EXISTS " ++ d.quoted name).toList []
  rw [String.toList_append]
  exact .code (by decide) (.quoted name)

theorem texts_createIndex {unique : Bool} {table : Identifier} :
    (createIndex unique name table column).Texts d [] := by
  have hopen : Holds d ((if unique then "CREATE UNIQUE INDEX " else "CREATE INDEX ").toList ++
      (d.quoted name).toList) [] := .code (by cases unique <;> decide) (.quoted name)
  have hon : Unquoted " ON ".toList := by decide
  have hbefore : Unquoted " (".toList := by decide
  have hbehind : Unquoted ")".toList := by decide
  have htable := hopen.between hon (by decide) (.quoted table)
  have hcolumn := htable.between hbefore (by decide) (.quoted column)
  show Holds d ((if unique then "CREATE UNIQUE INDEX " else "CREATE INDEX ") ++ d.quoted name ++ " ON " ++
    d.quoted table ++ " (" ++ d.quoted column ++ ")").toList []
  simpa using hcolumn.append_code hbehind

end SchemaStatement

/-! ## Plans -/

def SchemaStep.Texts (d : Dialect) (step : SchemaStep) (ts : List String) : Prop :=
  step.statement.Texts d ts

namespace SchemaPlanner

variable {p : SchemaPlanner} {table : String} {name : Identifier} {s : TableState}
  {c : ColumnDefinition} {steps : List SchemaStep}

theorem texts_createIndex? {column : String} {unique : Bool} {index : SchemaStatement}
    (h : createIndex? table column unique = .ok index) : index.Texts d [] := by
  simp only [createIndex?, Except.bind_eq_ok, Except.pure_eq_ok] at h
  obtain ⟨_, _, _, _, _, _, rfl⟩ := h
  exact SchemaStatement.texts_createIndex

end SchemaPlanner

namespace Drafts

open SchemaPlanner ColumnClause.Defaults

variable {p : SchemaPlanner} {table : String} {encryption : Option TableEncryption}

theorem defaults {c : ColumnDefinition} {clauses : List ColumnClause} {effects : List CatalogEffect}
    {trailing : List SchemaStep} (h : Drafts p table encryption c clauses effects trailing) :
    SplitOver (fun clause ts => clause.Defaults p.dialect ts) clauses c.textDefaults ∧
      ∀ step ∈ trailing, step.Texts p.dialect [] := by
  cases h with
  | plain _ _ _ hclause => exact ⟨.singleton (of_clause? hclause), by simp⟩
  | unique _ _ _ hclause => exact ⟨.singleton (of_clause? hclause).unique, by simp⟩
  | indexed _ _ _ hclause hstep =>
      exact ⟨.singleton (of_clause? hclause), List.forall_mem_singleton.mpr (texts_createIndex? hstep)⟩
  | sealed _ _ hcolumn hclause =>
      rw [textDefaults_of_encryptedColumn? hcolumn]
      exact ⟨.singleton (of_encryptedClause? hclause), by simp⟩
  | searchable _ _ _ hcolumn hclause hhash hstep =>
      rw [textDefaults_of_encryptedColumn? hcolumn]
      exact ⟨.cons (of_encryptedClause? hclause) (.singleton (of_hash? hhash)),
        List.forall_mem_singleton.mpr (texts_createIndex? hstep)⟩
  | searchableUnique _ _ _ hcolumn hclause hhash =>
      rw [textDefaults_of_encryptedColumn? hcolumn]
      exact ⟨.cons (of_encryptedClause? hclause) (.singleton (of_hash? hhash).unique), by simp⟩

theorem defaults_parts {columns : List ColumnDefinition}
    {parts : List (List ColumnClause × List CatalogEffect × List SchemaStep)}
    (h : List.Forall₂ (fun c part => Drafts p table encryption c part.1 part.2.1 part.2.2) columns parts) :
    SplitOver (fun clause ts => clause.Defaults p.dialect ts) (parts.flatMap (·.1))
        (columns.flatMap ColumnDefinition.textDefaults) ∧
      ∀ step ∈ parts.flatMap (·.2.2), step.Texts p.dialect [] := by
  induction h with
  | nil => exact ⟨.nil, by simp⟩
  | cons hpart _ ih =>
      obtain ⟨hclauses, htrailing⟩ := hpart.defaults
      simp only [List.flatMap_cons]
      exact ⟨hclauses.append ih.1, List.forall_mem_append.mpr ⟨htrailing, ih.2⟩⟩

end Drafts

namespace SchemaPlanner

variable {p : SchemaPlanner} {table : String} {name : Identifier} {s : TableState}
  {c : ColumnDefinition} {steps : List SchemaStep}

/-- The creation of a table holds the text defaults of its columns, and no other step holds any. -/
theorem hold_createTable? {b : TableBlueprint} (h : p.createTable? table b = .ok steps) :
    SplitOver (SchemaStep.Texts p.dialect) steps (b.columns.flatMap ColumnDefinition.textDefaults) := by
  obtain ⟨name, parts, times, -, -, hparts, htimes, rfl⟩ := createTable?_eq_ok h
  obtain ⟨hclauses, htrailing⟩ := Drafts.defaults_parts hparts
  have hstamps : ∀ clause ∈ times, clause.Defaults p.dialect [] := by
    intro clause hclause
    obtain ⟨time, -, htime⟩ := List.exists_of_mem_forall₂ htimes.flip hclause
    exact .of_timestamp? htime
  have hall := hclauses.append (.of_forall hstamps)
  rw [List.append_nil] at hall
  exact .cons_of_nil (SchemaStatement.texts_createTable hall) (.of_forall htrailing)

theorem hold_add? (h : p.add? table name c = .ok steps) :
    SplitOver (SchemaStep.Texts p.dialect) steps c.textDefaults := by
  unfold add? at h
  split at h
  · simp only [Except.bind_eq_ok] at h
    obtain ⟨e, he, clause, hclause, h⟩ := h
    have hclause' : (SchemaStatement.addColumn name clause).Texts p.dialect [] :=
      SchemaStatement.texts_addColumn (.of_encryptedClause? hclause)
    rw [textDefaults_of_encryptedColumn? he]
    split at h
    · simp only [Except.pure_eq_ok] at h
      subst h
      exact .singleton hclause'
    · simp only [Except.bind_eq_ok, Except.pure_eq_ok] at h
      obtain ⟨hashClause, hhashClause, index, hindex, rfl⟩ := h
      have hhash : (SchemaStatement.addColumn name hashClause).Texts p.dialect [] :=
        SchemaStatement.texts_addColumn (.of_hash? hhashClause)
      exact .cons_nil hclause' (.cons_nil hhash (.singleton (texts_createIndex? hindex)))
  · simp only [Except.bind_eq_ok] at h
    obtain ⟨clause, hclause, h⟩ := h
    have hclause' : (SchemaStatement.addColumn name clause).Texts p.dialect c.textDefaults :=
      SchemaStatement.texts_addColumn (.of_clause? hclause)
    split at h
    · simp only [Except.bind_eq_ok, Except.pure_eq_ok] at h
      obtain ⟨index, hindex, rfl⟩ := h
      exact .cons_of_nil hclause' (.singleton (texts_createIndex? hindex))
    · simp only [Except.pure_eq_ok] at h
      subst h
      exact .singleton hclause'

theorem hold_modify? (h : p.modify? s name c = .ok steps) :
    SplitOver (SchemaStep.Texts p.dialect) steps c.textDefaults := by
  unfold modify? at h
  split at h
  · cases h
  · split at h
    · cases h
    · rename_i hdialect
      simp only [Except.bind_eq_ok, Except.pure_eq_ok] at h
      obtain ⟨clause, hclause, rfl⟩ := h
      rw [hdialect]
      have hdefaults := ColumnClause.Defaults.of_clause? hclause
      have hmodified : ColumnClause.Defaults .mysql { clause with unique := c.unique } c.textDefaults :=
        ⟨hdefaults.type, hdefaults.counted, hdefaults.default⟩
      exact .singleton (SchemaStatement.texts_modifyColumn hmodified)
    · split at h
      · cases h
      · rename_i hcounted
        simp only [Except.bind_eq_ok] at h
        obtain ⟨column, -, h⟩ := h
        have htype : (SchemaStatement.setType name column (c.typeText .postgres)).Texts p.dialect [] :=
          SchemaStatement.texts_setType (c.unquoted_typeText .postgres)
        have hnull : (SchemaStatement.setNullable name column c.isNullable).Texts p.dialect [] :=
          SchemaStatement.texts_setNullable c.isNullable
        rw [ColumnDefinition.textDefaults, if_neg hcounted]
        cases hdefault : c.default with
        | none =>
            simp only [hdefault, pure_bind, Except.pure_eq_ok] at h
            subst h
            exact .cons_nil htype (.singleton hnull)
        | some v =>
            simp only [hdefault, Except.bind_eq_ok, Except.pure_eq_ok] at h
            obtain ⟨literal, hliteral, _, rfl, rfl⟩ := h
            have hholds := Literal.holds_ofDefault? (d := p.dialect) hliteral
            rw [Option.toList_some, List.flatMap_singleton]
            exact .cons_nil htype (.cons_nil hnull (.singleton (SchemaStatement.texts_setDefault hholds)))

theorem hold_drop? {column : String} (h : p.drop? table s name column = .ok steps) :
    SplitOver (SchemaStep.Texts p.dialect) steps [] := by
  simp only [drop?, Except.bind_eq_ok] at h
  obtain ⟨indexes, hindexes, dropped, -, h⟩ := h
  have hfirst : SplitOver (SchemaStep.Texts p.dialect) indexes [] := by
    unfold dropIndexes? at hindexes
    split at hindexes
    · simp only [Except.bind_eq_ok, Except.pure_eq_ok] at hindexes
      obtain ⟨plain, -, unique, -, rfl⟩ := hindexes
      exact .cons_nil SchemaStatement.texts_dropIndex (.singleton SchemaStatement.texts_dropIndex)
    · cases hindexes
      exact .nil
  split at h <;> simp only [Except.bind_eq_ok, Except.pure_eq_ok] at h
  · obtain ⟨n, -, _, rfl, rfl⟩ := h
    exact hfirst.nil_append (.cons_nil SchemaStatement.texts_dropColumn
      (.singleton SchemaStatement.texts_dropColumn))
  · obtain ⟨_, rfl, rfl⟩ := h
    exact hfirst.nil_append (.singleton SchemaStatement.texts_dropColumn)

/-- The steps of an action hold the text default of the column that it adds or modifies. -/
theorem hold_action? {a : AlterAction} (h : p.action? table name s a = .ok steps) :
    SplitOver (SchemaStep.Texts p.dialect) steps a.textDefaults := by
  cases a with
  | add c => exact hold_add? h
  | modify c => exact hold_modify? h
  | drop column => exact hold_drop? h
  | rename source target =>
      obtain ⟨hplain⟩ := acts_rename h
      exact .singleton SchemaStatement.texts_renameColumn

/-- The steps of actions hold the text defaults of the actions, in their order. -/
theorem hold_actions? {actions : List AlterAction} (h : p.actions? table name s actions = .ok steps) :
    SplitOver (SchemaStep.Texts p.dialect) steps (actions.flatMap AlterAction.textDefaults) := by
  induction actions generalizing s steps with
  | nil =>
      cases h
      exact .nil
  | cons a actions ih =>
      simp only [actions?, Except.bind_eq_ok, Except.pure_eq_ok] at h
      obtain ⟨first, hfirst, rest, hrest, rfl⟩ := h
      rw [List.flatMap_cons]
      exact (hold_action? hfirst).append (ih hrest)

theorem hold_alterTable? {actions : List AlterAction} (h : p.alterTable? table actions s = .ok steps) :
    SplitOver (SchemaStep.Texts p.dialect) steps (actions.flatMap AlterAction.textDefaults) := by
  unfold alterTable? at h
  split at h
  · cases h
  · simp only [Except.bind_eq_ok] at h
    obtain ⟨name, -, h⟩ := h
    exact hold_actions? h

end SchemaPlanner

/-! ## What a database reads -/

/-- The texts are the values of the literals in the statement of a step, as the database reads it. -/
def SchemaStep.Reads (d : Dialect) (step : SchemaStep) (ts : List String) : Prop :=
  Literal.readAll? d (step.statement.print d).toList = some (ts.map String.toList)

/-- The values that a database reads in statements are the texts that these hold, if and only if all of the
texts are kept. -/
theorem SchemaStep.reads_iff {steps : List SchemaStep} {ts : List String}
    (h : SplitOver (Texts d) steps ts) :
    SplitOver (Reads d) steps ts ↔ ∀ t ∈ ts, Literal.Kept d t.toList := by
  constructor
  · intro hreads
    induction h with
    | nil => simp
    | @cons step steps ts us hstep _ ih =>
        generalize hall : ts ++ us = all at hreads
        cases hreads with
        | @cons _ _ ts' us' hread hreads =>
            rcases hstep.readAll? hread with ⟨hsame, hkept⟩ | hparts
            · obtain rfl := List.map_injective_iff.mpr (fun _ _ => String.toList_inj.mp) hsame
              obtain rfl := List.append_cancel_left hall
              exact List.forall_mem_append.mpr ⟨hkept, ih hreads⟩
            · refine absurd ?_ (hparts.append_ne (us'.map String.toList) (us.map String.toList))
              rw [← List.map_append, ← List.map_append, hall]
  · intro hkept
    induction h with
    | nil => exact .nil
    | cons hstep _ ih =>
        rw [List.forall_mem_append] at hkept
        exact .cons (hstep.readAll?_of_kept hkept.1) (ih hkept.2)

namespace SchemaPlanner

/-- A database reads the literal for a default that is a text as this text, and what follows as if the literal
were not there, if and only if it keeps the text; and the literals that it reads in the steps of a plan are the
text defaults of the columns, in their order, if and only if it keeps all of them. -/
theorem textDefaults_read (p : SchemaPlanner) :
    (∀ (t literal : String) (cs : List Char) (ts : List (List Char)),
      Literal.ofDefault? (.text t) = .ok literal → cs.head? ≠ some '\'' →
      Literal.readAll? p.dialect cs = some ts →
      (Literal.readAll? p.dialect (literal.toList ++ cs) = some (t.toList :: ts) ↔
        Literal.Kept p.dialect t.toList)) ∧
    (∀ table b steps, p.createTable? table b = .ok steps →
      (SplitOver (SchemaStep.Reads p.dialect) steps (b.columns.flatMap ColumnDefinition.textDefaults) ↔
        ∀ t ∈ b.columns.flatMap ColumnDefinition.textDefaults, Literal.Kept p.dialect t.toList)) ∧
    ∀ table actions s steps, p.alterTable? table actions s = .ok steps →
      (SplitOver (SchemaStep.Reads p.dialect) steps (actions.flatMap AlterAction.textDefaults) ↔
        ∀ t ∈ actions.flatMap AlterAction.textDefaults, Literal.Kept p.dialect t.toList) := by
  refine ⟨fun t literal cs ts hliteral hcs hts => ?_,
    fun table b steps h => SchemaStep.reads_iff (hold_createTable? h),
    fun table actions s steps h => SchemaStep.reads_iff (hold_alterTable? h)⟩
  cases hliteral
  exact (Literal.Scan.literals?_ofText_iff hcs).trans (and_iff_left hts)

/-- A quotation mark and a kept backslash in a new table, and both in a column that is added. -/
theorem textDefaults_read_mysql :
    let p : SchemaPlanner := ⟨.mysql, .trusted, .chacha20Poly1305⟩
    let c : ColumnDefinition := { name := "note", type := .uuid, default := some (.text "it's 5\\%") }
    (∃ literal, Literal.ofDefault? (.text "it's 5\\%") = .ok literal ∧
      Literal.readAll? .mysql (literal.toList ++ [')']) = some ["it's 5\\%".toList]) ∧
    (∃ steps, p.createTable? "notes" ⟨[c], false, true, none⟩ = .ok steps ∧
      SplitOver (SchemaStep.Reads .mysql) steps ["it's 5\\%"]) ∧
    ∃ steps, p.alterTable? "notes" [.add c, .drop "old"] {} = .ok steps ∧
      SplitOver (SchemaStep.Reads .mysql) steps ["it's 5\\%"] := by
  intro p c
  obtain ⟨hliteral, hcreate, halter⟩ := textDefaults_read p
  have hkept : ∀ t ∈ ["it's 5\\%"], Literal.Kept .mysql t.toList := by decide
  obtain ⟨created, hcreated⟩ := Except.exists_of_isOk
    (show (p.createTable? "notes" ⟨[c], false, true, none⟩).isOk = true by decide)
  obtain ⟨altered, haltered⟩ := Except.exists_of_isOk
    (show (p.alterTable? "notes" [.add c, .drop "old"] {}).isOk = true by decide)
  exact ⟨⟨_, rfl, (hliteral _ _ [')'] [] rfl (by decide) rfl).mpr (hkept _ List.mem_cons_self)⟩,
    ⟨created, hcreated, (hcreate _ _ _ hcreated).mpr hkept⟩,
    ⟨altered, haltered, (halter _ _ _ _ haltered).mpr hkept⟩⟩

/-- MySQL takes the mark that is to close the literal for a part of it: the statement never ends. -/
theorem textDefaults_unread :
    ∃ step : SchemaStep,
      (⟨.mysql, .trusted, .chacha20Poly1305⟩ : SchemaPlanner).createTable? "t"
          { columns := [{ name := "path", type := .uuid, default := some (.text "C:\\") }] } = .ok [step] ∧
        step.statement.print .mysql =
          "CREATE TABLE \x60t\x60 (\x60path\x60 CHAR(36) NULL DEFAULT 'C:\\')" ∧
        Literal.readAll? .mysql (step.statement.print .mysql).toList = none :=
  ⟨_, rfl, by decide, by decide⟩

end SchemaPlanner

end TableGate
