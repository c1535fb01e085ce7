import Mathlib.Data.Multiset.Dedup
import TableGate.Proofs.Query.Understood
import TableGate.Proofs.Sql.Rendering

/-! # United rows

A query is united with a second one, which may be united with others in its turn: by the specification these
are united first. The statement has the SELECTs one after the other, without parentheses, and a database unites
the first two first. Whether both come to the same rows is told by the operators alone. -/

namespace TableGate

open Template

/-! ## Operands -/

section

variable {α : Type} {v : ℕ → Multiset α} {flags : List Bool}

/-- The results with the operators before them, where they are those from the n-th on. -/
def operandsFrom (v : ℕ → Multiset α) : ℕ → List Bool → List (Bool × Multiset α)
  | _, [] => []
  | n, all :: flags => (all, v n) :: operandsFrom v (n + 1) flags

theorem operandsFrom_append (n : ℕ) (flags others : List Bool) :
    operandsFrom v n (flags ++ others) = operandsFrom v n flags ++ operandsFrom v (n + flags.length) others := by
  induction flags generalizing n with
  | nil => rfl
  | cons all flags ih =>
      rw [List.cons_append, operandsFrom, operandsFrom, ih, List.length_cons, Nat.add_assoc, Nat.add_comm 1]
      rfl

theorem all_operandsFrom (n : ℕ) : (operandsFrom v n flags).all (·.1) = flags.all id := by
  induction flags generalizing n with
  | nil => rfl
  | cons all flags ih => rw [operandsFrom, List.all_cons, List.all_cons, ih, id]

theorem operandsFrom_empty {n : ℕ} (h : ∀ i, n ≤ i → i < n + flags.length → v i = 0) :
    ∀ o ∈ operandsFrom v n flags, o.2 = 0 := by
  induction flags generalizing n with
  | nil => simp [operandsFrom]
  | cons all flags ih =>
      rw [operandsFrom, List.forall_mem_cons]
      rw [List.length_cons] at h
      exact ⟨h n (Nat.le_refl n) (by omega), ih fun i hn hi => h i (by omega) (by omega)⟩

end

section

variable {α : Type} [DecidableEq α]

/-- The rows of two results together. Repeated rows stay only if all are kept. -/
def unite (all : Bool) (a b : Multiset α) : Multiset α :=
  if all then a + b else (a + b).dedup

/-- Results united from left to right, as a database unites those of a statement. -/
def unitedLeft : Multiset α → List (Bool × Multiset α) → Multiset α
  | a, [] => a
  | a, (all, b) :: rest => unitedLeft (unite all a b) rest

/-- Results united from right to left. -/
def unitedRight : Multiset α → List (Bool × Multiset α) → Multiset α
  | a, [] => a
  | a, (all, b) :: rest => unite all a (unitedRight b rest)

/-! ## Left and right -/

variable {a : Multiset α} {operands : List (Bool × Multiset α)} {x : α}

theorem mem_unite {all : Bool} {b : Multiset α} : x ∈ unite all a b ↔ x ∈ a ∨ x ∈ b := by
  cases all <;> simp [unite]

theorem mem_unitedLeft : x ∈ unitedLeft a operands ↔ x ∈ a ∨ ∃ o ∈ operands, x ∈ o.2 := by
  induction operands generalizing a with
  | nil => simp [unitedLeft]
  | cons o rest ih => simp [unitedLeft, ih, mem_unite, or_assoc]

theorem mem_unitedRight : x ∈ unitedRight a operands ↔ x ∈ a ∨ ∃ o ∈ operands, x ∈ o.2 := by
  induction operands generalizing a with
  | nil => simp [unitedRight]
  | cons o rest ih => simp [unitedRight, ih, mem_unite]

theorem unitedLeft_of_all (h : ∀ o ∈ operands, o.1 = true) :
    unitedLeft a operands = a + (operands.map (·.2)).sum := by
  induction operands generalizing a with
  | nil => simp [unitedLeft]
  | cons o rest ih =>
      obtain ⟨ho, hrest⟩ := List.forall_mem_cons.mp h
      rw [unitedLeft, ih hrest, unite, if_pos ho, List.map_cons, List.sum_cons, Multiset.add_assoc]

theorem unitedRight_of_all (h : ∀ o ∈ operands, o.1 = true) :
    unitedRight a operands = a + (operands.map (·.2)).sum := by
  induction operands generalizing a with
  | nil => simp [unitedRight]
  | cons o rest ih =>
      obtain ⟨ho, hrest⟩ := List.forall_mem_cons.mp h
      rw [unitedRight, ih hrest, unite, if_pos ho, List.map_cons, List.sum_cons]

theorem unitedLeft_append (others : List (Bool × Multiset α)) :
    unitedLeft a (operands ++ others) = unitedLeft (unitedLeft a operands) others := by
  induction operands generalizing a with
  | nil => rfl
  | cons o rest ih => exact ih

/-- If the first and the last operator keep no repeated row, neither the result from the right nor that from the
left has one, and they have the same rows. -/
theorem unitedLeft_eq_of_ends {first last : Multiset α} {front back : List (Bool × Multiset α)}
    (hfirst : operands = (false, first) :: front) (hlast : operands = back ++ [(false, last)]) :
    unitedLeft a operands = unitedRight a operands := by
  have hright : (unitedRight a operands).Nodup := by
    rw [hfirst]
    exact Multiset.nodup_dedup _
  have hleft : (unitedLeft a operands).Nodup := by
    rw [hlast, unitedLeft_append]
    exact Multiset.nodup_dedup _
  exact (Multiset.Nodup.ext hleft hright).mpr fun x => mem_unitedLeft.trans mem_unitedRight.symm

/-! ## A single result that is not empty -/

/-- United with nothing, a result loses its repeated rows where they are not kept. -/
theorem unitedLeft_of_empty (h : ∀ o ∈ operands, o.2 = 0) :
    unitedLeft a operands = if operands.all (·.1) then a else a.dedup := by
  induction operands generalizing a with
  | nil => simp [unitedLeft]
  | cons o rest ih =>
      obtain ⟨ho, hrest⟩ := List.forall_mem_cons.mp h
      obtain ⟨all, b⟩ := o
      obtain rfl : b = 0 := ho
      rw [unitedLeft, ih hrest]
      cases all with
      | false => simp [unite]
      | true =>
          rw [unite, if_pos rfl, Multiset.add_zero]
          rfl

theorem unitedRight_of_empty (h : ∀ o ∈ operands, o.2 = 0) : unitedRight 0 operands = 0 := by
  rw [Multiset.eq_zero_iff_forall_notMem]
  intro x hx
  rcases mem_unitedRight.mp hx with hx | ⟨o, ho, hx⟩
  · exact Multiset.notMem_zero x hx
  · rw [h o ho] at hx
    exact Multiset.notMem_zero x hx

theorem unitedRight_last (h : ∀ o ∈ operands, o.2 = 0) (b : Multiset α) :
    unitedRight 0 (operands ++ [(true, b)]) = if operands.all (·.1) then b else b.dedup := by
  induction operands with
  | nil => simp [unitedRight, unite]
  | cons o rest ih =>
      obtain ⟨ho, hrest⟩ := List.forall_mem_cons.mp h
      obtain ⟨all, c⟩ := o
      obtain rfl : c = 0 := ho
      rw [List.cons_append, unitedRight, ih hrest]
      cases all <;> by_cases hall : rest.all (·.1) = true <;> simp [unite, hall]

/-! ## Operators -/

/-- Operators for which the rows do not depend on where the uniting begins: all keep repeated rows, or neither
the first nor the last does. -/
def Indifferent (flags : List Bool) : Prop :=
  flags.all id = true ∨ flags.head? = some false ∧ flags.getLast? = some false

instance (flags : List Bool) : Decidable (Indifferent flags) :=
  inferInstanceAs (Decidable (_ ∨ _))

variable {flags : List Bool}

theorem unitedLeft_eq_of_indifferent (h : Indifferent flags) (v : ℕ → Multiset α) :
    unitedLeft (v 0) (operandsFrom v 1 flags) = unitedRight (v 0) (operandsFrom v 1 flags) := by
  rcases h with hall | ⟨hhead, hlast⟩
  · rw [← all_operandsFrom (v := v) 1, List.all_eq_true] at hall
    rw [unitedLeft_of_all hall, unitedRight_of_all hall]
  · obtain ⟨back, rfl⟩ := List.getLast?_eq_some_iff.mp hlast
    obtain ⟨front, hfront⟩ := List.head?_eq_some_iff.mp hhead
    have hfirst : operandsFrom v 1 (back ++ [false]) = (false, v 1) :: operandsFrom v 2 front := by
      rw [hfront, operandsFrom]
    exact unitedLeft_eq_of_ends hfirst (operandsFrom_append 1 back [false])

/-- Where a repeated row is kept by the first operator and not by all, the first result tells left from right;
where it is kept by the last one, the last result does. -/
theorem indifferent_of_unitedLeft_eq [Inhabited α]
    (h : ∀ v : ℕ → Multiset α,
      unitedLeft (v 0) (operandsFrom v 1 flags) = unitedRight (v 0) (operandsFrom v 1 flags)) :
    Indifferent flags := by
  let twice : Multiset α := {default, default}
  have htwice : twice.dedup ≠ twice := by
    rw [Ne, Multiset.dedup_eq_self]
    simp [twice]
  by_contra hother
  rw [Indifferent, not_or, not_and_or] at hother
  obtain ⟨hall, hhead | hlast⟩ := hother
  · obtain ⟨all, rest, rfl⟩ : ∃ all rest, flags = all :: rest :=
      List.exists_cons_of_ne_nil fun hnil => hall (by rw [hnil]; rfl)
    obtain rfl : all = true := by simpa using hhead
    let v : ℕ → Multiset α := fun i => if i = 0 then twice else 0
    have hempty : ∀ o ∈ operandsFrom v 1 (true :: rest), o.2 = 0 :=
      operandsFrom_empty fun i hi _ => if_neg (by omega)
    have hrest : ∀ o ∈ operandsFrom v 2 rest, o.2 = 0 := (List.forall_mem_cons.mp hempty).2
    have hleft : unitedLeft (v 0) (operandsFrom v 1 (true :: rest)) = twice.dedup := by
      rw [unitedLeft_of_empty hempty, all_operandsFrom, if_neg hall]
      rfl
    have hright : unitedRight (v 0) (operandsFrom v 1 (true :: rest)) = twice := by
      change unite true twice (unitedRight 0 (operandsFrom v 2 rest)) = twice
      rw [unitedRight_of_empty hrest, unite, if_pos rfl, Multiset.add_zero]
    exact htwice (hleft.symm.trans ((h v).trans hright))
  · obtain ⟨back, last, rfl⟩ : ∃ back last, flags = back ++ [last] :=
      ⟨_, _, (List.dropLast_concat_getLast fun hnil => hall (by rw [hnil]; rfl)).symm⟩
    obtain rfl : last = true := by simpa using hlast
    have hback : ¬back.all id = true := fun hback => hall (by rw [List.all_append, hback]; rfl)
    let v : ℕ → Multiset α := fun i => if i = 1 + back.length then twice else 0
    have hempty : ∀ o ∈ operandsFrom v 1 back, o.2 = 0 :=
      operandsFrom_empty fun i _ hi => if_neg (by omega)
    have hfirst : v 0 = 0 := if_neg (by omega)
    have hlast : operandsFrom v (1 + back.length) [true] = [(true, twice)] := by
      simp [operandsFrom, v]
    have hleft : unitedLeft (v 0) (operandsFrom v 1 (back ++ [true])) = twice := by
      rw [operandsFrom_append, hlast, unitedLeft_append, hfirst, unitedLeft_of_empty hempty]
      simp [unitedLeft, unite]
    have hright : unitedRight (v 0) (operandsFrom v 1 (back ++ [true])) = twice.dedup := by
      rw [operandsFrom_append, hlast, hfirst, unitedRight_last hempty, all_operandsFrom, if_neg hback]
    exact htwice (hright.symm.trans ((h v).symm.trans hleft))

end

/-! ## Queries and their statements -/

mutual

/-- Whether repeated rows are kept, for each union of a query from the outermost on. -/
def QuerySpec.unionFlags : QuerySpec → List Bool
  | .mk _ union _ => union.flags

def UnionSpec.flags : UnionSpec → List Bool
  | .none => []
  | .member _ query all => all :: query.unionFlags

end

section

variable {α : Type} [DecidableEq α]

mutual

/-- The rows that a query stands for, where its own SELECT is the n-th and has the rows of that number: those
of the SELECT, united with all that the second query stands for. -/
def QuerySpec.rows (v : ℕ → Multiset α) (n : ℕ) : QuerySpec → Multiset α
  | .mk _ union _ => union.rows v n

def UnionSpec.rows (v : ℕ → Multiset α) (n : ℕ) : UnionSpec → Multiset α
  | .none => v n
  | .member _ query all => unite all (v n) (query.rows v (n + 1))

end

mutual

theorem QuerySpec.rows_eq (v : ℕ → Multiset α) (n : ℕ) : ∀ q : QuerySpec,
    q.rows v n = unitedRight (v n) (operandsFrom v (n + 1) q.unionFlags)
  | .mk _ union _ => union.rows_eq v n

theorem UnionSpec.rows_eq (v : ℕ → Multiset α) (n : ℕ) : ∀ u : UnionSpec,
    u.rows v n = unitedRight (v n) (operandsFrom v (n + 1) u.flags)
  | .none => rfl
  | .member _ query all => by
      rw [UnionSpec.rows, query.rows_eq v (n + 1)]
      rfl

end

/-- The rows of SELECTs that stand in a row, the first of which has the rows of number zero, as a database
unites them. -/
def Select.rows (v : ℕ → Multiset α) : Select → Multiset α
  | .mk _ _ rest _ _ _ => unitedLeft (v 0) (operandsFrom v 1 (rest.map (·.1)))

end

variable {k : Compiler} {scope : Scope}

/-- The operators of a statement are those of the unions of its query. -/
theorem UnionSpec.flags_eq : ∀ {u : UnionSpec} {scope : Scope} {rest : List (Bool × SelectBody)},
    QuerySpec.unionMembers? k scope u = .ok rest → rest.map (·.1) = u.flags
  | .none, _, _ => by
      intro h
      cases h
      rfl
  | .member _ (.mk _ _ _) all, _, _ => by
      intro h
      obtain ⟨-, -, body, -, members, hmembers, rfl⟩ := QuerySpec.unionMembers?_member.mp h
      rw [List.map_cons, UnionSpec.flags_eq hmembers]
      rfl

theorem QuerySpec.select?_eq_ok {table : String} {q : QuerySpec} {select : Select}
    (h : q.select? k scope table = .ok select) :
    ∃ ctes first rest orderBy limit offset, select = .mk ctes first rest orderBy limit offset ∧
      rest.map (·.1) = q.unionFlags := by
  obtain ⟨c, union, ctes⟩ := q
  simp only [QuerySpec.select?, Except.bind_eq_ok, Except.pure_eq_ok] at h
  obtain ⟨ctes, -, first, -, rest, hrest, orderBy, -, rfl⟩ := h
  exact ⟨ctes, first, rest, orderBy, c.limit, c.offset, rfl, UnionSpec.flags_eq hrest⟩

/-! ## The text -/

theorem Template.printFrom_flatten (d : Dialect) (n : ℕ) (ts : List Template) :
    printFrom d n ts.flatten = String.join (printEach d n ts) := by
  induction ts generalizing n with
  | nil => rfl
  | cons t ts ih => rw [List.flatten_cons, printFrom_append, ih, printEach, String.join_cons]

/-- The SELECTs of a statement, each but the first behind the operator that unites it with those before. -/
def Select.members (first : SelectBody) (rest : List (Bool × SelectBody)) : List Template :=
  first.template :: rest.map fun (all, body) =>
    .text (if all then " UNION ALL " else " UNION ") :: body.template

/-- A statement has its SELECTs one after the other, with nothing between them but the operators. -/
theorem Select.print_template (d : Dialect) (ctes : CteClauses) (first : SelectBody)
    (rest : List (Bool × SelectBody)) (orderBy : List OrderTerm) (limit offset : Option UInt64) :
    ∃ n m, ((Select.mk ctes first rest orderBy limit offset).template d).print d =
      (withTemplate d ctes).print d ++ String.join (printEach d n (members first rest)) ++
        printFrom d m (orderTemplate orderBy) ++
          d.limitClause (limit.map UInt64.toNat) (offset.map UInt64.toNat) := by
  have hmembers : first.template ++ restTemplate rest = (members first rest).flatten := by
    rw [members, List.flatten_cons, restTemplate, List.flatMap_def]
  refine ⟨1 + (params (withTemplate d ctes)).length,
    1 + (params (withTemplate d ctes ++ (members first rest).flatten)).length, ?_⟩
  rw [Select.template, print, List.append_assoc (withTemplate d ctes), hmembers, printFrom_append,
    printFrom_append, printFrom_append, printFrom_flatten]
  simp [print, printFrom]

namespace Compiler

/-- Under every assignment of rows to its SELECTs, the statement of a query comes to what the query stands for
if and only if the operators are indifferent to where the uniting begins. -/
theorem union_rows {table : String} {q : QuerySpec} {s : Statement}
    (h : k.selectScoped table q scope = .ok s) {α : Type} [DecidableEq α] [Inhabited α] :
    ∃ ctes first rest orderBy limit offset n m,
      q.select? k scope table = .ok (.mk ctes first rest orderBy limit offset) ∧
      s.sql = (Select.withTemplate k.dialect ctes).print k.dialect ++
        String.join (printEach k.dialect n (Select.members first rest)) ++
          printFrom k.dialect m (Select.orderTemplate orderBy) ++
            k.dialect.limitClause (limit.map UInt64.toNat) (offset.map UInt64.toNat) ∧
      rest.map (·.1) = q.unionFlags ∧
      ((∀ v : ℕ → Multiset α, (Select.mk ctes first rest orderBy limit offset).rows v = q.rows v 0) ↔
        Indifferent q.unionFlags) := by
  obtain ⟨select, hselect, rfl⟩ := selectScoped_eq_ok.mp h
  obtain ⟨ctes, first, rest, orderBy, limit, offset, rfl, hflags⟩ := QuerySpec.select?_eq_ok hselect
  obtain ⟨n, m, hprint⟩ := Select.print_template k.dialect ctes first rest orderBy limit offset
  refine ⟨ctes, first, rest, orderBy, limit, offset, n, m, hselect, hprint, hflags, ?_⟩
  simp only [Select.rows, QuerySpec.rows_eq, hflags]
  exact ⟨indifferent_of_unitedLeft_eq, unitedLeft_eq_of_indifferent⟩

/-- Users, those of the archive and those of a backup, each once. -/
theorem union_rows_users :
    let k : Compiler := ⟨.postgres, .guarded⟩
    let q : QuerySpec := .mk {} (.member "archive" (.mk {} (.member "backup" .empty false) .nil) false) .nil
    ∃ s, k.selectScoped "users" q Scope.none = .ok s ∧
      ∃ ctes first rest orderBy limit offset n m,
        q.select? k Scope.none "users" = .ok (.mk ctes first rest orderBy limit offset) ∧
        s.sql = (Select.withTemplate k.dialect ctes).print k.dialect ++
          String.join (printEach k.dialect n (Select.members first rest)) ++
            printFrom k.dialect m (Select.orderTemplate orderBy) ++
              k.dialect.limitClause (limit.map UInt64.toNat) (offset.map UInt64.toNat) ∧
        rest.map (·.1) = q.unionFlags ∧
        ((∀ v : ℕ → Multiset ℕ, (Select.mk ctes first rest orderBy limit offset).rows v = q.rows v 0) ↔
          Indifferent q.unionFlags) := by
  intro k q
  obtain ⟨s, hs⟩ : ∃ s, k.selectScoped "users" q Scope.none = .ok s := Except.exists_of_isOk (by decide)
  exact ⟨s, hs, union_rows hs⟩

/-- A table is united, with all rows kept, with two tables that are to be united before, with no row repeated.
The statement unites the last table with the rows of both others, and so loses the repeated rows of the first. -/
theorem union_rows_lost :
    let k : Compiler := ⟨.postgres, .guarded⟩
    let q : QuerySpec := .mk {} (.member "b" (.mk {} (.member "c" .empty false) .nil) true) .nil
    let v : ℕ → Multiset ℕ := fun n => if n = 0 then {7, 7} else 0
    ∃ select, q.select? k Scope.none "a" = .ok select ∧
      (select.template .postgres).print .postgres =
        "SELECT * FROM \"a\" UNION ALL SELECT * FROM \"b\" UNION SELECT * FROM \"c\"" ∧
      select.rows v = {7} ∧ q.rows v 0 = {7, 7} := by
  intro k q v
  obtain ⟨select, hselect, htext⟩ := Except.exists_of_any (x := q.select? k Scope.none "a")
    (p := fun select => (select.template .postgres).print .postgres ==
      "SELECT * FROM \"a\" UNION ALL SELECT * FROM \"b\" UNION SELECT * FROM \"c\"") (by decide)
  obtain ⟨_, _, rest, _, _, _, rfl, hflags⟩ := QuerySpec.select?_eq_ok hselect
  refine ⟨_, hselect, by simpa using htext, ?_, by decide⟩
  rw [Select.rows, hflags]
  decide

end Compiler

end TableGate
