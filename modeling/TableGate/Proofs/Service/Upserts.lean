import TableGate.Proofs.Query.InsertedRows
import TableGate.Proofs.Service.EncryptedWrites

/-! # Upserts

An upsert assigns columns of a row that is there already. Which ones is settled in two steps, the first of
which adds hash columns to those that are asked for, and the second of which takes the columns of the encrypted
rows where none are asked for. Either way a value that was asked for and its hash come from the same row. Where a
hash column is itself encrypted and searched by a hash column, that one may be left behind. -/

namespace TableGate

open Template

/-! ## The columns that are assigned -/

/-- Appending what is not there yet, one after the other. -/
theorem List.foldl_append_missing {α : Type} [BEq α] [LawfulBEq α] (xs acc : List α) :
    xs.foldl (fun acc x => if acc.contains x then acc else acc ++ [x]) acc =
      acc ++ (xs.filter fun x => !acc.contains x).eraseDups := by
  induction xs generalizing acc with
  | nil => simp
  | cons x xs ih =>
      rw [List.foldl_cons]
      by_cases hx : acc.contains x = true
      · rw [if_pos hx, ih, List.filter_cons_of_neg (by simpa using hx)]
      · rw [if_neg hx, ih, List.filter_cons_of_pos (by simpa using hx), List.eraseDups_cons, List.filter_filter,
          List.append_assoc, List.singleton_append]
        congr 3
        refine List.filter_congr fun y _ => ?_
        rw [Bool.eq_iff_iff]
        simp [or_comm, not_or]

/-- The hash columns of the encrypted columns among the given ones, in the order of their registration. -/
def EncryptedColumn.hashColumnsOf (encrypted : List EncryptedColumn) (columns : List String) : List String :=
  encrypted.filterMap fun e => if columns.contains e.column then e.hashColumn else none

theorem EncryptedColumn.mem_hashColumnsOf {encrypted : List EncryptedColumn} {columns : List String}
    {hash : String} : hash ∈ hashColumnsOf encrypted columns ↔
      ∃ e ∈ encrypted, e.column ∈ columns ∧ e.hashColumn = some hash := by
  simp [hashColumnsOf, List.mem_filterMap]

/-- Columns are followed by the hash columns that are missing among them. -/
theorem Service.withHashColumns_eq (encrypted : List EncryptedColumn) (columns : List String) :
    withHashColumns encrypted columns = columns ++
      ((EncryptedColumn.hashColumnsOf encrypted columns).filter fun h => !columns.contains h).eraseDups := by
  rw [← List.foldl_append_missing, EncryptedColumn.hashColumnsOf, List.foldl_filterMap, withHashColumns]
  congr 1
  funext expanded e
  cases e.hashColumn <;> by_cases he : e.column ∈ columns <;> simp [he, ite_not]

/-- The columns that an upsert of stored rows with the given columns assigns on conflict: those that are asked
for, followed by the hash columns of the encrypted ones that are missing among them; where none are asked for,
all columns but the unique ones. -/
def Service.assignedColumns (encrypted : List EncryptedColumn) (columns uniqueBy : List String) :
    Option (List String) → List String
  | some requested => requested ++ ((EncryptedColumn.hashColumnsOf encrypted requested).filter fun h =>
      !requested.contains h).eraseDups
  | none => columns.filter fun c => !uniqueBy.contains c

theorem Service.assignedColumns_eq (encrypted : List EncryptedColumn) (columns uniqueBy : List String)
    (update : Option (List String)) :
    (update.map (withHashColumns encrypted)).getD (columns.filter fun c => !uniqueBy.contains c) =
      assignedColumns encrypted columns uniqueBy update := by
  cases update with
  | none => rfl
  | some requested => exact withHashColumns_eq encrypted requested

theorem Service.mem_assignedColumns_some {encrypted : List EncryptedColumn}
    {columns uniqueBy requested : List String} {name : String} :
    name ∈ assignedColumns encrypted columns uniqueBy (some requested) ↔
      name ∈ requested ∨ ∃ e ∈ encrypted, e.column ∈ requested ∧ e.hashColumn = some name := by
  rw [assignedColumns, List.mem_append, List.mem_eraseDups, List.mem_filter,
    EncryptedColumn.mem_hashColumnsOf]
  by_cases hname : name ∈ requested <;> simp [hname]

/-! ## The text -/

namespace Dialect

/-- What an upsert does to a row that is there already: the columns are assigned the new values; without any,
nothing is done, for which MySQL assigns the first key to itself. -/
def conflictText (d : Dialect) (key : Identifier) (keys assigned : List Identifier) : String :=
  match d, assigned with
  | .mysql, [] => " ON DUPLICATE KEY UPDATE " ++ d.quoted key ++ " = " ++ d.quoted key
  | .mysql, _ => " ON DUPLICATE KEY UPDATE " ++
      ", ".intercalate (assigned.map fun n => d.quoted n ++ " = VALUES(" ++ d.quoted n ++ ")")
  | _, [] => " ON CONFLICT (" ++ ", ".intercalate ((key :: keys).map d.quoted) ++ ") DO NOTHING"
  | _, _ => " ON CONFLICT (" ++ ", ".intercalate ((key :: keys).map d.quoted) ++ ") DO UPDATE SET " ++
      ", ".intercalate (assigned.map fun n => d.quoted n ++ " = excluded." ++ d.quoted n)

end Dialect

/-- The treatment of a conflict is printed alike wherever it stands. -/
theorem Conflict.printFrom_template (d : Dialect) (n : ℕ) (key : Identifier) (keys assigned : List Identifier) :
    printFrom d n (Conflict.template d ⟨key :: keys, assigned⟩) = d.conflictText key keys assigned := by
  have hvalues : printFrom d n (joined ", " (assigned.map fun n =>
      [.name n, .text " = VALUES(", .name n, .text ")"])) =
        ", ".intercalate (assigned.map fun n => d.quoted n ++ " = VALUES(" ++ d.quoted n ++ ")") := by
    rw [printFrom_joined, printEach_map (fun _ => rfl)]
    exact fun n name => by simp [printFrom, String.append_assoc]
  have hexcluded : printFrom d n (joined ", " (assigned.map fun n =>
      [.name n, .text " = excluded.", .name n])) =
        ", ".intercalate (assigned.map fun n => d.quoted n ++ " = excluded." ++ d.quoted n) := by
    rw [printFrom_joined, printEach_map (fun _ => rfl)]
    exact fun n name => by simp [printFrom, String.append_assoc]
  have hkeys := Insert.printFrom_names d n (key :: keys)
  have hparams : params (Insert.nameTemplate (key :: keys)) = [] := Insert.params_names _
  have hself : printFrom d n [.text " ON DUPLICATE KEY UPDATE ", .name key, .text " = ", .name key] =
      " ON DUPLICATE KEY UPDATE " ++ d.quoted key ++ " = " ++ d.quoted key := by
    simp only [printFrom, String.append_assoc, String.append_empty]
  have hnothing : printFrom d n (.text " ON CONFLICT (" :: Insert.nameTemplate (key :: keys) ++
      [.text ") DO NOTHING"]) =
        " ON CONFLICT (" ++ ", ".intercalate ((key :: keys).map d.quoted) ++ ") DO NOTHING" := by
    rw [List.cons_append, printFrom, printFrom_append, hkeys, printFrom, printFrom]
    simp only [String.append_assoc, String.append_empty]
  have hset : printFrom d n (.text " ON CONFLICT (" :: Insert.nameTemplate (key :: keys) ++
      .text ") DO UPDATE SET " :: joined ", " (assigned.map fun n =>
        [.name n, .text " = excluded.", .name n])) =
        " ON CONFLICT (" ++ ", ".intercalate ((key :: keys).map d.quoted) ++ ") DO UPDATE SET " ++
          ", ".intercalate (assigned.map fun n => d.quoted n ++ " = excluded." ++ d.quoted n) := by
    rw [List.cons_append, printFrom, printFrom_append, hkeys, hparams, printFrom, List.length_nil, Nat.add_zero,
      hexcluded]
    simp only [String.append_assoc]
  cases assigned with
  | nil =>
      cases d with
      | mysql => exact hself
      | postgres => exact hnothing
      | sqlite => exact hnothing
  | cons name rest =>
      cases d with
      | mysql => exact congrArg (" ON DUPLICATE KEY UPDATE " ++ ·) hvalues
      | postgres => exact hset
      | sqlite => exact hset

/-- An upsert is the insertion of its rows and, behind it, the treatment of a conflict. -/
theorem Write.statement_upsert (d : Dialect) (i : Insert) (key : Identifier) (keys assigned : List Identifier) :
    (Write.upsert i ⟨key :: keys, assigned⟩).statement d =
      ⟨((Write.insert i).statement d).sql ++ d.conflictText key keys assigned,
        ((Write.insert i).statement d).params⟩ := by
  rw [Write.statement, Write.template, Template.statement, print, printFrom_append,
    Conflict.printFrom_template, params_append, Conflict.params_template, List.append_nil]
  rfl

/-! ## Upserts that are sent -/

/-- Whether a column is to be updated by the caller's will: it is asked for or, where nothing is, a row that
is given has it. -/
def Service.Asked (update : Option (List String)) (given : List Row) (column : String) : Prop :=
  match update with
  | some requested => column ∈ requested
  | none => ∃ row ∈ given, row.contains column = true

/-- Wherever an encrypted column is assigned, its hash column is assigned too, or is a unique one. -/
def Service.HashesFollow (encrypted : List EncryptedColumn) (assigned uniqueBy : List String) : Prop :=
  ∀ e ∈ encrypted, ∀ hash ∈ e.hashColumn, e.column ∈ assigned → hash ∈ assigned ∨ hash ∈ uniqueBy

/-- An encrypted column is assigned only as the hash column of another one, and its own hash column is left out:
because it is not asked for and belongs to no column that is or, where nothing is asked for, because the stored rows
do not have it. -/
def Service.LeavesHash (encrypted : List EncryptedColumn) (columns uniqueBy : List String) (given : List Row)
    (update : Option (List String)) : Prop :=
  ∃ f ∈ encrypted, ∃ e ∈ encrypted, f.hashColumn = some e.column ∧
    ∃ hash ∈ e.hashColumn, hash ∉ uniqueBy ∧
      match update with
      | some requested => f.column ∈ requested ∧ e.column ∉ requested ∧ hash ∉ requested ∧
        ∀ g ∈ encrypted, g.column ∈ requested → g.hashColumn ≠ some hash
      | none => e.column ∈ columns ∧ (∀ row ∈ given, row.contains e.column = false) ∧ hash ∉ columns

/-- Two rows are in conflict: they agree on the columns that an upsert names as unique. MySQL does not look at these
but at the unique keys of the table, of which any is enough. -/
def Row.Conflicts (d : Dialect) (uniqueKeys : List (List String)) (uniqueBy : List String) (old new : Row) : Prop :=
  match d with
  | .mysql => ∃ key ∈ uniqueKeys, ∀ column ∈ key, old.get? column = new.get? column
  | _ => ∀ column ∈ uniqueBy, old.get? column = new.get? column

/-- What a row has after a conflict: what the new row has in the columns that are assigned, and what it had
itself in all others. -/
def Row.afterConflict (assigned : List String) (old new : Row) (column : String) : Option Value :=
  if column ∈ assigned then new.get? column else old.get? column

/-- An upsert of the given rows, which are stored as others, that assigns columns on conflict. No encrypted
column is a unique one, and every unique one is a column of the stored rows; the statement is their insertion
and what is done on conflict. Hash columns follow encrypted columns unless one of a hash column is left out, and then
a value and its hash come from the same row: on MySQL, which may find another conflict than the unique columns
tell, if the hash column is assigned. -/
structure Service.Upserts (s : Service) (c : Connection) (table : String) (given stored : List Row)
    (uniqueBy : List String) (update : Option (List String)) (assigned : List String)
    (statement : Statement) : Prop where
  keys_open : ∀ e ∈ s.vault.columns.get c.name table, e.column ∉ uniqueBy
  keys_stored : ∀ row ∈ stored, ∀ key ∈ uniqueBy, row.contains key = true
  nonempty : stored ≠ []
  assigned_eq : ∀ row ∈ stored,
    assigned = assignedColumns (s.vault.columns.get c.name table) row.names uniqueBy update
  statement_eq : ∃ inserted key keys updates, (s.compiler c).insert table stored = .ok inserted ∧
    (key :: keys).map Identifier.text = uniqueBy ∧ updates.map Identifier.text = assigned ∧
    statement = ⟨inserted.sql ++ c.dialect.conflictText key keys updates, inserted.params⟩
  hashesFollow_iff : ∀ row ∈ stored, HashesFollow (s.vault.columns.get c.name table) assigned uniqueBy ↔
    ¬LeavesHash (s.vault.columns.get c.name table) row.names uniqueBy given update
  same_row : ∀ e ∈ s.vault.columns.get c.name table, ∀ hash ∈ e.hashColumn, e.column ∈ assigned →
    hash ∈ assigned ∨ hash ∈ uniqueBy ∧ c.dialect ≠ .mysql → ∀ new ∈ stored, ∀ (old : Row) uniqueKeys,
      Row.Conflicts c.dialect uniqueKeys uniqueBy old new →
      Row.afterConflict assigned old new e.column = new.get? e.column ∧
        Row.afterConflict assigned old new hash = new.get? hash

namespace Service

theorem afterConflict_of_mem {assigned : List String} {column : String} (h : column ∈ assigned) (old new : Row) :
    Row.afterConflict assigned old new column = new.get? column :=
  if_pos h

/-- After a conflict that the unique columns tell, they are those of the new row. -/
theorem afterConflict_of_unique {d : Dialect} (hd : d ≠ .mysql) {assigned uniqueBy : List String}
    {uniqueKeys : List (List String)} {old new : Row} (hconflict : Row.Conflicts d uniqueKeys uniqueBy old new)
    {column : String} (h : column ∈ uniqueBy) :
    Row.afterConflict assigned old new column = new.get? column := by
  have hagree : ∀ column ∈ uniqueBy, old.get? column = new.get? column := by
    cases d with
    | mysql => exact absurd rfl hd
    | postgres => exact hconflict
    | sqlite => exact hconflict
  unfold Row.afterConflict
  split
  · rfl
  · exact hagree column h

section

variable {v : Vault} {connection table : String} {nonces : Nonces} {given stored : List Row}
  {columns uniqueBy : List String} {update : Option (List String)} {e : EncryptedColumn}

/-- Beside an encrypted column that is asked for, its hash column is assigned or tells the conflict. -/
theorem hash_mem_of_asked (h : v.encryptRows connection table nonces given = .ok stored)
    (hcolumns : ∀ row ∈ stored, row.names = columns) (he : e ∈ v.columns.get connection table)
    {hash : String} (hhash : e.hashColumn = some hash) (hasked : Asked update given e.column) :
    hash ∈ assignedColumns (v.columns.get connection table) columns uniqueBy update ∨ hash ∈ uniqueBy := by
  cases update with
  | some requested => exact .inl (mem_assignedColumns_some.mpr (.inr ⟨e, he, hasked, hhash⟩))
  | none =>
      obtain ⟨row, hrow, hcolumn⟩ := hasked
      have hall := Vault.forall₂_encryptRows (fun _ _ _ hrow hcolumn =>
        Vault.contains_hash_of_encryptColumns hrow he hcolumn hhash) h
      obtain ⟨new, hnew, hstored⟩ := List.exists_of_mem_forall₂ hall hrow
      have hmem : hash ∈ columns := by
        rw [← hcolumns new hnew, ← List.contains_iff_mem, ← NameMap.contains_eq]
        exact hstored hcolumn
      by_cases hunique : hash ∈ uniqueBy
      · exact .inr hunique
      · exact .inl (List.mem_filter.mpr ⟨hmem, by simpa using hunique⟩)

/-- A column that is assigned without being asked for is a hash column. -/
theorem hash_of_not_asked (h : v.encryptRows connection table nonces given = .ok stored)
    {new : Row} (hnew : new ∈ stored) {column : String} (hcolumn : new.contains column = true)
    (hgiven : ∀ row ∈ given, row.contains column = false) :
    ∃ f ∈ v.columns.get connection table, f.hashColumn = some column := by
  have hall := Vault.forall₂_encryptRows (fun _ _ _ hrow hcolumn =>
    Vault.contains_or_hash_of_encryptColumns (n := column) hrow hcolumn) h
  obtain ⟨row, hrow, hrelated⟩ := List.exists_of_mem_forall₂ hall.flip hnew
  exact (hrelated hcolumn).resolve_left fun hcontains => by simp [hgiven row hrow] at hcontains

/-- Where a hash column is left out it is that of a hash column. -/
theorem leavesHash_of_not_follow (h : v.encryptRows connection table nonces given = .ok stored)
    (hcolumns : ∀ row ∈ stored, row.names = columns) (hnonempty : stored ≠ [])
    (he : e ∈ v.columns.get connection table) {hash : String} (hhash : e.hashColumn = some hash)
    (hassigned : e.column ∈ assignedColumns (v.columns.get connection table) columns uniqueBy update)
    (hleft : ¬(hash ∈ assignedColumns (v.columns.get connection table) columns uniqueBy update ∨
      hash ∈ uniqueBy)) :
    LeavesHash (v.columns.get connection table) columns uniqueBy given update := by
  have hasked : ¬Asked update given e.column := fun hasked => hleft (hash_mem_of_asked h hcolumns he hhash hasked)
  obtain ⟨hunassigned, hunique⟩ := not_or.mp hleft
  cases update with
  | some requested =>
      obtain ⟨f, hf, hrequested, hfhash⟩ := (mem_assignedColumns_some.mp hassigned).resolve_left hasked
      rw [mem_assignedColumns_some, not_or] at hunassigned
      exact ⟨f, hf, e, he, hfhash, hash, hhash, hunique, hrequested, hasked, hunassigned.1,
        fun g hg hgrequested hghash => hunassigned.2 ⟨g, hg, hgrequested, hghash⟩⟩
  | none =>
      obtain ⟨new, hnew⟩ := List.exists_mem_of_ne_nil _ hnonempty
      have hcolumn := (List.mem_filter.mp hassigned).1
      have hgiven : ∀ row ∈ given, row.contains e.column = false := by
        intro row hrow
        by_contra hcontains
        exact hasked ⟨row, hrow, by simpa using hcontains⟩
      have hcontains : new.contains e.column = true := by
        rw [NameMap.contains_eq, List.contains_iff_mem, hcolumns new hnew]
        exact hcolumn
      obtain ⟨f, hf, hfhash⟩ := hash_of_not_asked h hnew hcontains hgiven
      refine ⟨f, hf, e, he, hfhash, hash, hhash, hunique, hcolumn, hgiven, fun hmem => hunassigned ?_⟩
      exact List.mem_filter.mpr ⟨hmem, by simpa using hunique⟩

/-- Hash columns follow unless one of a hash column is left out. -/
theorem hashesFollow_iff (h : v.encryptRows connection table nonces given = .ok stored)
    (hcolumns : ∀ row ∈ stored, row.names = columns) (hnonempty : stored ≠ [])
    (hopen : ∀ e ∈ v.columns.get connection table, e.column ∉ uniqueBy) :
    HashesFollow (v.columns.get connection table)
        (assignedColumns (v.columns.get connection table) columns uniqueBy update) uniqueBy ↔
      ¬LeavesHash (v.columns.get connection table) columns uniqueBy given update := by
  constructor
  · rintro hfollow ⟨f, hf, e, he, hfhash, hash, hhash, hunique, hleft⟩
    cases update with
    | some requested =>
        obtain ⟨hrequested, -, hunrequested, hothers⟩ := hleft
        have hassigned : e.column ∈ assignedColumns _ columns uniqueBy (some requested) :=
          mem_assignedColumns_some.mpr (.inr ⟨f, hf, hrequested, hfhash⟩)
        rcases mem_assignedColumns_some.mp ((hfollow e he hash hhash hassigned).resolve_right hunique) with
          hmem | ⟨g, hg, hgrequested, hghash⟩
        · exact hunrequested hmem
        · exact hothers g hg hgrequested hghash
    | none =>
        obtain ⟨hcolumn, -, hmissing⟩ := hleft
        have hassigned : e.column ∈ columns.filter fun c => !uniqueBy.contains c :=
          List.mem_filter.mpr ⟨hcolumn, by simpa using hopen e he⟩
        exact hmissing (List.mem_filter.mp ((hfollow e he hash hhash hassigned).resolve_right hunique)).1
  · intro hnone e he hash hhash hassigned
    by_contra hleft
    exact hnone (leavesHash_of_not_follow h hcolumns hnonempty he hhash hassigned hleft)

end

/-- Whatever an upsert is asked to update, the statement that is sent for it assigns no encrypted column without its
hash column, if and only if it leaves out none of a hash column. -/
theorem upsert_keeps_hashes {s : Service} {connection table : String} {given : List Row}
    {uniqueBy : List String} {update : Option (List String)} {nonces : Nonces} {p : Prepared AffectedInfo}
    (h : s.upsert connection table given uniqueBy update nonces = .ok p) :
    ∃ c stored assigned, s.registry.find? connection = .ok c ∧ p.connection = c ∧
      s.vault.encryptRows c.name table nonces given = .ok stored ∧
      s.Upserts c table given stored uniqueBy update assigned p.statement := by
  obtain ⟨c, stored, statement, hc, hopen, hstored, hstatement, rfl⟩ := upsert_eq_ok h
  obtain ⟨w, hw, rfl⟩ := Except.map_eq_ok.mp hstatement
  obtain ⟨hunique, i, ⟨target, updates⟩, hi, hkeys, htarget, hupdates, rfl⟩ := Write.upsertOf?_eq_ok.mp hw
  obtain ⟨first, rest, hrows, halike, -, -, hcolumns, -⟩ := Write.insertRows?_eq_ok.mp hi
  have hnames : ∀ row ∈ stored, row.names = i.columns.map (·.text) := by
    rw [hrows, hcolumns]
    exact List.forall_mem_cons.mpr ⟨rfl, halike⟩
  have hnonempty : stored ≠ [] := hrows ▸ List.cons_ne_nil _ _
  rw [assignedColumns_eq] at hupdates
  obtain ⟨key, keys, rfl⟩ : ∃ key keys, target = key :: keys := by
    refine List.exists_cons_of_ne_nil fun hnone => hunique ?_
    rw [← htarget, hnone, List.map_nil]
  have hinserted : (s.compiler c).insert table stored = .ok ((Write.insert i).statement c.dialect) := by
    rw [Compiler.insert, Write.insertOf?, hi]
    rfl
  refine ⟨c, stored, updates.map (·.text), hc, rfl, hstored, hopen, ?_, hnonempty, ?_, ?_, ?_, ?_⟩
  · intro row hrow name hname
    rw [NameMap.contains_eq, List.contains_iff_mem, hnames row hrow]
    exact hkeys name hname
  · intro row hrow
    rw [hnames row hrow, hupdates]
  · refine ⟨_, key, keys, updates, hinserted, htarget, rfl, ?_⟩
    exact Write.statement_upsert c.dialect i key keys updates
  · intro row hrow
    rw [hnames row hrow, hupdates]
    exact hashesFollow_iff hstored hnames hnonempty hopen
  · intro e he hash hhash hassigned hfollows new hnew old uniqueKeys hconflict
    refine ⟨afterConflict_of_mem hassigned old new, ?_⟩
    rcases hfollows with hmem | ⟨hmem, hdialect⟩
    · exact afterConflict_of_mem hmem old new
    · exact afterConflict_of_unique hdialect hconflict hmem

/-- An upsert that is asked to update an address updates its hash with it. -/
theorem upsert_keeps_hashes_searchable :
    let keys : KeyRing := ⟨[⟨1, List.replicate 32 7⟩], ⟨1, List.replicate 32 7⟩⟩
    let vault := (Vault.new .standard keys [1, 2] .xchacha20Poly1305).register "main" "users"
      (.searchable "email")
    let c : Connection := ⟨"main", .mysql, "mysql://localhost/app", .shared, 5⟩
    let s : Service := ⟨⟨.ofList [("main", c)], none, .empty⟩, vault, .empty, .guarded⟩
    let row : Row := .ofList [("email", .text "ada@example.org"), ("id", .int 1)]
    let nonces : Nonces := fun _ _ => ⟨List.replicate 24 0, rfl⟩
    ∃ p, s.upsert "main" "users" [row] ["id"] (some ["email"]) nonces = .ok p ∧
      ∃ c stored assigned, s.registry.find? "main" = .ok c ∧ p.connection = c ∧
        s.vault.encryptRows c.name "users" nonces [row] = .ok stored ∧
        s.Upserts c "users" [row] stored ["id"] (some ["email"]) assigned p.statement := by
  intro keys vault c s row nonces
  obtain ⟨p, hp⟩ : ∃ p, s.upsert "main" "users" [row] ["id"] (some ["email"]) nonces = .ok p :=
    Except.exists_of_isOk (by decide +kernel)
  exact ⟨p, hp, upsert_keeps_hashes hp⟩

/-- On MySQL a row is also updated because of another unique key. A hash column that is not assigned keeps its value,
even if it is one of the columns that are named as unique. -/
example :
    let old : Row := .ofList [("id", .int 1), ("email", .text "x"), ("email_hash", .text "hash of x")]
    let new : Row := .ofList [("id", .int 1), ("email", .text "y"), ("email_hash", .text "hash of y")]
    Row.Conflicts .mysql [["id"], ["email_hash"]] ["email_hash"] old new ∧
      Row.afterConflict ["email"] old new "email" = some (.text "y") ∧
      Row.afterConflict ["email"] old new "email_hash" = some (.text "hash of x") :=
  ⟨⟨["id"], List.mem_cons_self, List.forall_mem_singleton.mpr rfl⟩, rfl, rfl⟩

/-- A hash column may itself be an encrypted column with a hash column. It is assigned with the column that it
belongs to, and its own hash column is not, though the new row has all three. -/
theorem upsert_leaves_hash_of_hash :
    let keys : KeyRing := ⟨[⟨1, List.replicate 32 7⟩], ⟨1, List.replicate 32 7⟩⟩
    let vault := ((Vault.new .standard keys [] .chacha20Poly1305).register "main" "t"
      ⟨"a", .chacha20Poly1305, none, some "b"⟩).register "main" "t" ⟨"b", .chacha20Poly1305, none, some "c"⟩
    let c : Connection := ⟨"main", .sqlite, "sqlite::memory:", .shared, 5⟩
    let s : Service := ⟨⟨.ofList [("main", c)], none, .empty⟩, vault, .empty, .guarded⟩
    let row : Row := .ofList [("id", .int 1), ("a", .text "x")]
    let nonces : Nonces := fun _ _ => ⟨List.replicate 24 0, rfl⟩
    ∃ p, s.upsert "main" "t" [row] ["id"] (some ["a"]) nonces = .ok p ∧
      p.statement.sql = "INSERT INTO \"t\" (\"a\", \"b\", \"c\", \"id\") VALUES (?, ?, ?, ?) " ++
        "ON CONFLICT (\"id\") DO UPDATE SET \"a\" = excluded.\"a\", \"b\" = excluded.\"b\"" ∧
      ¬∀ e ∈ vault.columns.get "main" "t", ∀ hash ∈ e.hashColumn, e.column ∈ ["a", "b"] →
        hash ∈ ["a", "b"] ∨ hash ∈ ["id"] := by
  intro keys vault c s row nonces
  obtain ⟨p, hp, hsql⟩ := Except.exists_of_any (x := s.upsert "main" "t" [row] ["id"] (some ["a"]) nonces)
    (p := fun p => p.statement.sql == "INSERT INTO \"t\" (\"a\", \"b\", \"c\", \"id\") VALUES (?, ?, ?, ?) " ++
      "ON CONFLICT (\"id\") DO UPDATE SET \"a\" = excluded.\"a\", \"b\" = excluded.\"b\"")
    (by decide +kernel)
  refine ⟨p, hp, by simpa using hsql, ?_⟩
  decide +kernel

end Service

end TableGate
