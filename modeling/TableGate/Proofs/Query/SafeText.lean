import TableGate.Proofs.Query.Vetted
import TableGate.Proofs.Query.Writes
import TableGate.Schema.Plan

/-! # Statements without separators and comments

Under the guarded policy no statement made from a query, a write or the body of a view holds a statement
separator or the start of a comment: neither inside a fragment, nor where two pieces of its text meet. -/

namespace TableGate

/-- The text holds neither a statement separator nor the start of a comment. -/
def SafeText (sql : String) : Prop :=
  ∀ part ∈ [";", "--", "/*"], ¬part.toList <:+: sql.toList

theorem safeText_iff {sql : String} : SafeText sql ↔ Text.Clean sql.toList :=
  Text.clean_iff.symm

/-! ## Printing clean fragments -/

/-- Under the guarded policy fragments are clean. -/
theorem RawPolicy.clean_of_check {fragment context x : String}
    (h : RawPolicy.guarded.check fragment context = .ok x) : Text.Clean x.toList := by
  simp only [RawPolicy.check] at h
  split at h
  · cases h
  · split at h
    · cases h
    · rename_i hsafe
      cases h
      rw [String.toList_ofList]
      exact Text.isUnsafeText_eq_false.mp (by simpa using hsafe)

namespace Template

variable {d : Dialect} {t : Template}

/-- What is set off from the text before it completes no comment's start. -/
theorem SetOff.head?_printFrom (h : SetOff t) (n : ℕ) :
    (printFrom d n t).toList.head? ≠ some '-' ∧ (printFrom d n t).toList.head? ≠ some '*' := by
  induction t with
  | nil => simp [printFrom]
  | cons p t ih =>
      cases p with
      | name | raw | literal | param => exact h.elim
      | text x =>
          rcases h with h | ⟨rfl, h⟩
          · cases hx : x.toList with
            | nil => simp [isSetOff, hx] at h
            | cons c cs =>
                have hc : (c = ' ' ∨ c = ',') ∨ c = ')' := by simpa [isSetOff, hx] using h
                rcases hc with (rfl | rfl) | rfl <;> simp [printFrom, hx]
          · simpa [printFrom] using ih h

/-- A name between quotes holds nothing from which a separator or a comment could be made. -/
theorem clean_quoted_append (d : Dialect) (i : Identifier) {cs : List Char} (h : Text.Clean cs) :
    Text.Clean ((d.quoted i).toList ++ cs) := by
  have hname : Text.Plain i.text.toList :=
    Text.plain_of_forall fun c hc => Text.isPlainChar_of_isWordChar (i.isWordChar_of_mem hc)
  have hquote : d.quote ∉ [';', '-', '/'] := by cases d <;> decide
  rw [d.toList_quoted, List.cons_append, List.append_assoc]
  exact Text.Clean.cons hquote (hname.clean_append (Text.Clean.cons hquote h))

theorem clean_literal_append {s : String} (hs : s = " " ∨ JsonStep.IsPathText s) {cs : List Char}
    (h : Text.Clean cs) : Text.Clean (("'" ++ s ++ "'").toList ++ cs) := by
  have hcontent : Text.Plain s.toList := by
    rcases hs with rfl | hpath
    · decide
    · exact Text.plain_of_forall fun c hc => Text.isPlainChar_of_isPathChar (hpath.isPathChar c hc)
  have hclosed := hcontent.clean_append (Text.Clean.cons (c := '\'') (by decide) h)
  rw [toList_literal, List.cons_append, List.append_assoc]
  exact Text.Clean.cons (by decide) hclosed

/-- A template whose fragments are clean is printed as clean text. -/
theorem Vetted.clean (h : Vetted (fun x => Text.Clean x.toList) t) (n : ℕ) :
    Text.Clean (printFrom d n t).toList := by
  induction t generalizing n with
  | nil => trivial
  | cons p t ih =>
      cases p with
      | text x =>
          rw [printFrom, String.toList_append]
          exact Text.Plain.clean_append h.1 (ih h.2 n)
      | name i =>
          rw [printFrom, String.toList_append]
          exact clean_quoted_append d i (ih h.2 n)
      | raw x =>
          obtain ⟨hx, hset, ht⟩ := h
          have hfirst := hset.head?_printFrom (d := d) n
          rw [printFrom, String.toList_append]
          exact hx.append (ih ht n) (fun _ => hfirst.1) fun _ => hfirst.2
      | literal s =>
          rw [printFrom, String.toList_append]
          exact clean_literal_append h.1 (ih h.2 n)
      | param v =>
          rw [printFrom, String.toList_append]
          exact (d.plain_placeholder n).clean_append (ih h.2 (n + 1))

end Template

/-! ## Writes -/

/-- The columns in the write are regular. -/
def Write.Regular : Write → Prop
  | .insert rows => rows.table.expression.Regular
  | .upsert rows _ => rows.table.expression.Regular
  | .update table _ filter => table.expression.Regular ∧ Chain.Regular filter
  | .delete table filter => table.expression.Regular ∧ Chain.Regular filter

open Template

theorem Insert.plain_names (names : List Identifier) : (Insert.nameTemplate names).Plain := by
  refine plain_joined (by decide) fun t ht => ?_
  obtain ⟨n, -, rfl⟩ := List.mem_map.mp ht
  simp [Piece.Plain]

theorem Insert.plain {i : Insert} (h : i.table.expression.Regular) (d : Dialect) :
    (i.template d).Plain := by
  have htuple (values : List Value) : (Insert.tupleTemplate values).Plain := by
    refine plain_parenthesized (plain_joined (by decide) fun t ht => ?_)
    obtain ⟨v, -, rfl⟩ := List.mem_map.mp ht
    simp [Piece.Plain]
  have htuples : (Template.joined ", " (i.tuples.map Insert.tupleTemplate)).Plain := by
    refine plain_joined (by decide) fun t ht => ?_
    obtain ⟨values, -, rfl⟩ := List.mem_map.mp ht
    exact htuple values
  have htable := Reference.plain h
  unfold Insert.template
  split
  · cases d <;> simp +decide [Piece.Plain, htable]
  · simp +decide [Piece.Plain, htable, Insert.plain_names, htuples]

theorem Conflict.plain (c : Conflict) (d : Dialect) : (c.template d).Plain := by
  have hnames {f : Identifier → Template} (hf : ∀ n, (f n).Plain) (names : List Identifier) :
      (Template.joined ", " (names.map f)).Plain := by
    refine plain_joined (by decide) fun t ht => ?_
    obtain ⟨n, -, rfl⟩ := List.mem_map.mp ht
    exact hf n
  have hnothing := hnames (f := fun n => [.name n, .text " = ", .name n])
    (fun n => by simp +decide [Piece.Plain]) (c.target.take 1)
  have hvalues := hnames (f := fun n => [.name n, .text " = VALUES(", .name n, .text ")"])
    (fun n => by simp +decide [Piece.Plain]) c.updates
  have hexcluded := hnames (f := fun n => [.name n, .text " = excluded.", .name n])
    (fun n => by simp +decide [Piece.Plain]) c.updates
  unfold Conflict.template
  split <;> split <;>
    simp +decide [-List.map_take, Piece.Plain, Insert.plain_names, hnothing, hvalues, hexcluded]

theorem Write.plain {w : Write} (h : w.Regular) (d : Dialect) : (w.template d).Plain := by
  have hwhere {chain : Chain} (hchain : Chain.Regular chain) : (whereTemplate chain).Plain := by
    unfold whereTemplate
    split
    · exact plain_nil
    · exact plain_text (by decide) (Predicate.plain_chain chain hchain)
  cases w with
  | insert rows => exact Insert.plain h d
  | upsert rows conflict => exact plain_append.mpr ⟨Insert.plain h d, conflict.plain d⟩
  | update table assignments chain =>
      have hassignments : (assignmentTemplate assignments).Plain := by
        refine plain_joined (by decide) fun t ht => ?_
        obtain ⟨⟨n, a⟩, -, rfl⟩ := List.mem_map.mp ht
        cases a <;> simp +decide [Assigned.template, Piece.Plain]
      simp +decide [template, Piece.Plain, Reference.plain h.1, hassignments, hwhere h.2]
  | delete table chain =>
      simp +decide [template, Piece.Plain, Reference.plain h.1, hwhere h.2]

theorem Write.regular_of_insertRows? {table : String} {rows : List Row} {i : Insert}
    (h : insertRows? table rows = .ok i) : i.table.expression.Regular := by
  obtain ⟨_, _, -, -, hr, -, -, -⟩ := insertRows?_eq_ok.mp h
  exact Reference.regular_of_of? hr

theorem Write.regular_of_insertOf? {table : String} {rows : List Row} {w : Write}
    (h : insertOf? table rows = .ok w) : w.Regular := by
  obtain ⟨i, hi, rfl⟩ := Except.map_eq_ok.mp h
  exact regular_of_insertRows? hi

theorem Write.regular_of_upsertOf? {table : String} {rows : List Row} {uniqueBy : List String}
    {update : Option (List String)} {w : Write} (h : upsertOf? table rows uniqueBy update = .ok w) :
    w.Regular := by
  obtain ⟨-, i, conflict, hi, -, -, -, rfl⟩ := upsertOf?_eq_ok.mp h
  exact regular_of_insertRows? hi

theorem Write.regular_of_updateOf? {table : String} {values : Row} {cs : List Condition} {w : Write}
    (h : updateOf? table values cs = .ok w) : w.Regular := by
  unfold updateOf? at h
  split at h
  · cases h
  · simp only [Except.bind_eq_ok, Except.pure_eq_ok] at h
    obtain ⟨assignments, -, r, hr, chain, hchain, rfl⟩ := h
    exact ⟨Reference.regular_of_of? hr, Condition.regular_of_chain? hchain⟩

theorem Write.regular_of_deleteOf? {table : String} {cs : List Condition} {w : Write}
    (h : deleteOf? table cs = .ok w) : w.Regular := by
  simp only [deleteOf?, Except.bind_eq_ok, Except.pure_eq_ok] at h
  obtain ⟨r, hr, chain, hchain, rfl⟩ := h
  exact ⟨Reference.regular_of_of? hr, Condition.regular_of_chain? hchain⟩

theorem Write.regular_of_softDeleteOf? {table column : String} {cs : List Condition} {w : Write}
    (h : softDeleteOf? table column cs = .ok w) : w.Regular := by
  simp only [softDeleteOf?, Except.bind_eq_ok, Except.pure_eq_ok] at h
  obtain ⟨n, -, r, hr, chain, hchain, rfl⟩ := h
  exact ⟨Reference.regular_of_of? hr, Condition.regular_of_chain? hchain⟩

theorem Write.regular_of_restoreOf? {table column : String} {cs : List Condition} {w : Write}
    (h : restoreOf? table column cs = .ok w) : w.Regular := by
  simp only [restoreOf?, Except.bind_eq_ok, Except.pure_eq_ok] at h
  obtain ⟨n, -, r, hr, chain, hchain, rfl⟩ := h
  exact ⟨Reference.regular_of_of? hr, Condition.regular_of_chain? hchain⟩

/-! ## Statements that are compiled -/

namespace Compiler

/-- The statements that a compiler makes: of queries, with or without a scope, and of writes. -/
inductive Compiled (k : Compiler) : Statement → Prop where
  | select {table q s} (h : k.select table q = .ok s) : Compiled k s
  | selectScoped {table q scope s} (h : k.selectScoped table q scope = .ok s) : Compiled k s
  | count {table cs scope s} (h : k.count table cs scope = .ok s) : Compiled k s
  | insert {table rows s} (h : k.insert table rows = .ok s) : Compiled k s
  | upsert {table rows uniqueBy update s} (h : k.upsert table rows uniqueBy update = .ok s) : Compiled k s
  | update {table values cs s} (h : k.update table values cs = .ok s) : Compiled k s
  | delete {table cs s} (h : k.delete table cs = .ok s) : Compiled k s
  | softDelete {table column cs s} (h : k.softDelete table column cs = .ok s) : Compiled k s
  | restore {table column cs s} (h : k.restore table column cs = .ok s) : Compiled k s

variable {k : Compiler} {s : Statement}

theorem clean_of_selectScoped (hk : k.policy = .guarded) {table : String} {q : QuerySpec} {scope : Scope}
    (h : k.selectScoped table q scope = .ok s) : Text.Clean s.sql.toList := by
  obtain ⟨select, hselect, rfl⟩ := Compiler.selectScoped_eq_ok.mp h
  refine Vetted.clean (QuerySpec.vetted q scope table select hselect fun f _ context x hx => ?_) 1
  rw [hk] at hx
  exact RawPolicy.clean_of_check hx

theorem clean_of_write {r : Except Fault Write} (hr : ∀ w, r = .ok w → w.Regular)
    (h : k.write r = .ok s) : Text.Clean s.sql.toList := by
  obtain ⟨w, hw, rfl⟩ := Except.map_eq_ok.mp h
  exact (Write.plain (hr w hw) k.dialect).vetted.clean 1

theorem Compiled.clean (hk : k.policy = .guarded) (h : k.Compiled s) : Text.Clean s.sql.toList := by
  cases h with
  | select h | selectScoped h | count h => exact clean_of_selectScoped hk h
  | insert h => exact clean_of_write (fun w => Write.regular_of_insertOf?) h
  | upsert h => exact clean_of_write (fun w => Write.regular_of_upsertOf?) h
  | update h => exact clean_of_write (fun w => Write.regular_of_updateOf?) h
  | delete h => exact clean_of_write (fun w => Write.regular_of_deleteOf?) h
  | softDelete h => exact clean_of_write (fun w => Write.regular_of_softDeleteOf?) h
  | restore h => exact clean_of_write (fun w => Write.regular_of_restoreOf?) h

end Compiler

theorem SchemaPlanner.clean_createView {p : SchemaPlanner} (hp : p.policy = .guarded) {table body : String}
    {state : TableState} {steps : List SchemaStep} (h : p.plan? table state (.createView body) = .ok steps) :
    ∀ step ∈ steps, Text.Clean (step.statement.print p.dialect).toList := by
  simp only [SchemaPlanner.plan?, Except.bind_eq_ok, Except.pure_eq_ok, hp] at h
  obtain ⟨x, hx, n, -, rfl⟩ := h
  intro step hstep
  have hprint : (SchemaStatement.createView n x).print p.dialect =
      "CREATE VIEW " ++ p.dialect.quoted n ++ " AS " ++ x := rfl
  have hbody : Text.Clean (" AS ".toList ++ x.toList) :=
    Text.Plain.clean_append (by decide) (RawPolicy.clean_of_check hx)
  have hopening : Text.Plain "CREATE VIEW ".toList := by decide
  rw [List.mem_singleton.mp hstep, hprint]
  simp only [String.toList_append, List.append_assoc]
  exact hopening.clean_append (Template.clean_quoted_append p.dialect n hbody)

/-- Under the guarded policy neither a compiled statement nor the creation of a view holds a statement
separator or the start of a comment, whatever the caller supplied. -/
theorem guarded_safeText :
    (∀ (k : Compiler) (s : Statement), k.policy = .guarded → k.Compiled s → SafeText s.sql) ∧
    ∀ (p : SchemaPlanner) (table body : String) (state : TableState) (steps : List SchemaStep),
      p.policy = .guarded → p.plan? table state (.createView body) = .ok steps →
        ∀ step ∈ steps, SafeText (step.statement.print p.dialect) := by
  refine ⟨fun k s hk h => safeText_iff.mpr (h.clean hk), ?_⟩
  intro p table body state steps hp h step hstep
  exact safeText_iff.mpr (SchemaPlanner.clean_createView hp h step hstep)

/-- Fragments that end in half of a comment's start, with a star and a negative limit behind them. -/
theorem guarded_safeText_halves :
    let k : Compiler := ⟨.sqlite, .guarded⟩
    let p : SchemaPlanner := ⟨.sqlite, .guarded, .chacha20Poly1305⟩
    let items : List SelectItem := [.raw "price /", .count "*" none, .raw "1 -"]
    let q := QuerySpec.mk { select := items, offset := some 5 } .none .nil
    (∃ s, k.selectScoped "orders" q Scope.none = .ok s ∧ SafeText s.sql) ∧
      ∃ steps, p.plan? "recent" {} (.createView " SELECT 1 - ") = .ok steps ∧
        ∀ step ∈ steps, SafeText (step.statement.print p.dialect) := by
  intro k p items q
  obtain ⟨s, hs⟩ : ∃ s, k.selectScoped "orders" q Scope.none = .ok s := Except.exists_of_isOk (by decide)
  obtain ⟨steps, hsteps⟩ : ∃ steps, p.plan? "recent" {} (.createView " SELECT 1 - ") = .ok steps :=
    Except.exists_of_isOk (by decide)
  exact ⟨⟨s, hs, guarded_safeText.1 k s rfl (.selectScoped hs)⟩, steps, hsteps,
    guarded_safeText.2 p "recent" _ _ steps rfl hsteps⟩

end TableGate
