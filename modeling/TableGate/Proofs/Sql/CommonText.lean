import TableGate.Proofs.Query.Quotes

/-! # Text common to the dialects

Replacements that know nothing of templates take from a text what only its dialect writes: the backquotes
around names and the numbers of parameters. A template of plain pieces is printed in the same common text
in every dialect, if a scan of what PostgreSQL gets finds the marks of its parameters and no others. -/

namespace TableGate

namespace Text

/-- The text with a question mark for each dollar sign that has a number behind it, and for that number.
The flag tells whether the number is still being read. -/
def unnumberedFrom : Bool → List Char → List Char
  | _, [] => []
  | inNumber, c :: cs =>
    if inNumber && c.isDigit then unnumberedFrom true cs
    else if c = '$' ∧ cs.head?.any Char.isDigit then '?' :: unnumberedFrom true cs
    else c :: unnumberedFrom false cs

def unnumbered (cs : List Char) : List Char :=
  unnumberedFrom false cs

theorem unnumbered_append_of_notMem {xs : List Char} (h : '$' ∉ xs) (cs : List Char) :
    unnumbered (xs ++ cs) = xs ++ unnumbered cs := by
  unfold unnumbered
  induction xs with
  | nil => rfl
  | cons x xs ih =>
      obtain ⟨hx, hxs⟩ := List.ne_and_not_mem_of_not_mem_cons h
      rw [List.cons_append, unnumberedFrom]
      simp [Ne.symm hx, ih hxs]

theorem unnumberedFrom_append_of_digits {ds cs : List Char} (hds : ∀ c ∈ ds, c.isDigit = true)
    (hcs : NoDigitFirst cs) : unnumberedFrom true (ds ++ cs) = unnumbered cs := by
  induction ds with
  | nil =>
      cases cs with
      | nil => rfl
      | cons c cs => simp [unnumbered, unnumberedFrom, hcs c rfl]
  | cons c ds ih =>
      obtain ⟨hc, hds⟩ := List.forall_mem_cons.mp hds
      rw [List.cons_append, unnumberedFrom]
      simp [hc, ih hds]

theorem toList_placeholder_postgres (n : ℕ) : (Dialect.postgres.placeholder n).toList = '$' :: digits n := by
  simp [Dialect.placeholder, ofNat]

theorem unnumbered_placeholder_append (n : ℕ) {cs : List Char} (h : NoDigitFirst cs) :
    unnumbered ((Dialect.postgres.placeholder n).toList ++ cs) = '?' :: unnumbered cs := by
  have hdigits : ∀ c ∈ digits n, c.isDigit = true := fun c hc => isDigit_of_mem_digits hc
  have hnumber : (digits n ++ cs).head?.any Char.isDigit = true := by
    cases hds : digits n with
    | nil => exact absurd hds (digits_ne_nil n)
    | cons d ds => simpa using hdigits d (by simp [hds])
  rw [toList_placeholder_postgres, List.cons_append, unnumbered, unnumberedFrom, Bool.false_and,
    if_neg Bool.false_ne_true, if_pos ⟨rfl, hnumber⟩, unnumberedFrom_append_of_digits hdigits h]

example : unnumbered "x1 = $12 AND y = $3 OR z = $".toList = "x1 = ? AND y = ? OR z = $".toList := by
  decide

end Text

namespace Dialect

/-- The text with the tokens of the dialect in their common form: names between double quotes, and a
question mark for each parameter. -/
def common : Dialect → List Char → List Char
  | .mysql => List.map fun c => if c = '\x60' then '"' else c
  | .postgres => Text.unnumbered
  | .sqlite => id

/-- The character that opens the tokens of a dialect that are not in the common form. -/
def own? : Dialect → Option Char
  | .mysql => some '\x60'
  | .postgres => some '$'
  | .sqlite => none

theorem common_append_of_notMem (d : Dialect) {xs : List Char} (h : ∀ c ∈ d.own?, c ∉ xs)
    (cs : List Char) : d.common (xs ++ cs) = xs ++ d.common cs := by
  cases d with
  | mysql =>
      have hmark : '\x60' ∉ xs := h '\x60' rfl
      have hkept : xs.map (fun c => if c = '\x60' then '"' else c) = xs.map id :=
        List.map_congr_left fun c hc => if_neg (ne_of_mem_of_not_mem hc hmark)
      simp only [common, List.map_append, hkept, List.map_id]
  | postgres => exact Text.unnumbered_append_of_notMem (h '$' rfl) cs
  | sqlite => rfl

theorem common_quote_cons (d : Dialect) (cs : List Char) : d.common (d.quote :: cs) = '"' :: d.common cs := by
  cases d with
  | postgres =>
      have hmark : '$' ∉ ['"'] := by decide
      exact Text.unnumbered_append_of_notMem hmark cs
  | mysql | sqlite => rfl

theorem common_quoted_append (d : Dialect) (n : Identifier) (cs : List Char) :
    d.common ((d.quoted n).toList ++ cs) = (Dialect.sqlite.quoted n).toList ++ d.common cs := by
  have hname : ∀ c ∈ d.own?, c ∉ n.text.toList := by
    intro c hc hmem
    have hword := n.isWordChar_of_mem hmem
    cases d <;> cases hc <;> exact absurd hword (by decide)
  have hquote : Dialect.sqlite.quote = '"' := rfl
  rw [d.toList_quoted, Dialect.sqlite.toList_quoted, hquote, List.cons_append, List.append_assoc,
    List.singleton_append, common_quote_cons, common_append_of_notMem d hname, common_quote_cons,
    List.cons_append, List.append_assoc, List.singleton_append]

theorem common_placeholder_append (d : Dialect) (n : ℕ) {cs : List Char}
    (h : d = .postgres → NoDigitFirst cs) :
    d.common ((d.placeholder n).toList ++ cs) = (Dialect.sqlite.placeholder n).toList ++ d.common cs := by
  have hmark : (Dialect.sqlite.placeholder n).toList = ['?'] := by simp [placeholder]
  rw [hmark, List.singleton_append]
  cases d with
  | postgres => exact Text.unnumbered_placeholder_append n (h rfl)
  | mysql | sqlite => simp [common, placeholder]

/-! ## Marks and dollar signs -/

theorem length_marks_postgres (cs : List Char) : (Dialect.postgres.marks cs).length = cs.count '$' := by
  induction cs with
  | nil => rfl
  | cons c cs ih =>
      rw [marks]
      split
      · rename_i hc
        simp [hc, markChar, ih]
      · rename_i hc
        have hother : c ≠ '$' := hc
        rw [ih, List.count_cons_of_ne hother]

/-- Whatever stands behind the mark of a position, one mark opens there. -/
theorem marks_postgres_placeholder (n : ℕ) (cs : List Char) :
    Dialect.postgres.marks ((Dialect.postgres.placeholder n).toList ++ cs) =
      Dialect.postgres.markBefore (Text.digits n ++ cs) :: Dialect.postgres.marks cs := by
  have hdigits : Dialect.postgres.markChar ∉ Text.digits n := fun hmem =>
    absurd (Text.isDigit_of_mem_digits hmem) (by decide)
  have hmark : '$' = Dialect.postgres.markChar := rfl
  rw [Text.toList_placeholder_postgres, List.cons_append, marks, if_pos hmark,
    marks_append_of_notMem _ hdigits]

/-- It is the mark of the position only if no digit stands behind it. -/
theorem noDigitFirst_of_markBefore {n : ℕ} {cs : List Char}
    (h : Dialect.postgres.markBefore (Text.digits n ++ cs) = Dialect.postgres.placeholder n) :
    NoDigitFirst cs := by
  have hchars := congrArg String.toList h
  rw [markBefore, String.toList_ofList, Text.toList_placeholder_postgres, List.cons.injEq,
    List.takeWhile_append_of_pos fun c hc => Text.isDigit_of_mem_digits hc] at hchars
  have hnone : cs.takeWhile Char.isDigit = [] := List.append_right_eq_self.mp hchars.2
  intro c hc
  cases cs with
  | nil => cases hc
  | cons d ds =>
      cases hc
      by_contra hdigit
      simp [List.takeWhile_cons, hdigit] at hnone

end Dialect

/-- The statement in the common form: with double quotes around names, and with a question mark for each
parameter. -/
def Statement.common (d : Dialect) (s : Statement) : Statement :=
  ⟨String.ofList (d.common s.sql.toList), s.params⟩

namespace Template

variable {d : Dialect} {n : ℕ} {cs : List Char} {vs : List Value} {s t : Template}

/-- From a position on and before the given characters, the text of the template is the common one, once
the tokens of the dialect are in their common form. -/
def CommonAt (d : Dialect) (n : ℕ) (cs : List Char) (t : Template) : Prop :=
  d.common ((printFrom d n t).toList ++ cs) = (printFrom .sqlite n t).toList ++ d.common cs

/-- The same from every position on and before all characters that continue no number. -/
def Common (d : Dialect) (t : Template) : Prop :=
  ∀ n cs, NoDigitFirst cs → CommonAt d n cs t

/-- In the common form the statement is the same in every dialect. -/
theorem Common.common_statement (h : Common d t) : (t.statement d).common d = t.statement .sqlite := by
  have hempty : d.common [] = [] := by cases d <;> rfl
  have hprint := h 1 [] (by simp [NoDigitFirst])
  simp only [CommonAt, List.append_nil, hempty] at hprint
  rw [Statement.common, statement, print, hprint, String.ofList_toList]
  rfl

/-! ## Pieces -/

theorem commonAt_nil : CommonAt d n cs [] := by
  simp [CommonAt, printFrom]

/-- A piece that all dialects print as the same text, in which none of the dialect's own tokens opens. -/
theorem CommonAt.fixed {p : Piece} {x : String} (hx : ∀ c ∈ d.own?, c ∉ x.toList)
    (hprint : ∀ e, printFrom e n (p :: t) = x ++ printFrom e n t) (ht : CommonAt d n cs t) :
    CommonAt d n cs (p :: t) := by
  rw [CommonAt, hprint, hprint, String.toList_append, String.toList_append, List.append_assoc,
    List.append_assoc, d.common_append_of_notMem hx, ht]

theorem CommonAt.name {i : Identifier} (ht : CommonAt d n cs t) : CommonAt d n cs (.name i :: t) := by
  rw [CommonAt, printFrom, printFrom, String.toList_append, String.toList_append, List.append_assoc,
    List.append_assoc, d.common_quoted_append, ht]

theorem CommonAt.param {v : Value} (ht : CommonAt d (n + 1) cs t)
    (ho : d = .postgres → NoDigitFirst ((printFrom d (n + 1) t).toList ++ cs)) :
    CommonAt d n cs (.param v :: t) := by
  rw [CommonAt, printFrom, printFrom, String.toList_append, String.toList_append, List.append_assoc,
    List.append_assoc, d.common_placeholder_append n ho, ht]

/-! ## Putting templates together -/

theorem common_nil : Common d [] :=
  fun _ _ _ => commonAt_nil

theorem Common.append (hs : Common d s) (ht : Common d t) (ho : Opens d t) : Common d (s ++ t) := by
  intro n cs h
  rw [CommonAt, printFrom_append, printFrom_append, String.toList_append, String.toList_append,
    List.append_assoc, List.append_assoc, hs n _ (ho _ cs h), ht _ cs h]

/-- No token of any dialect's own opens in the text. -/
def Shared (x : String) : Prop :=
  '\x60' ∉ x.toList ∧ '$' ∉ x.toList

instance (x : String) : Decidable (Shared x) :=
  inferInstanceAs (Decidable (_ ∧ _))

theorem Common.text {x : String} (hx : Shared x) (ht : Common d t) : Common d (.text x :: t) := by
  have hown : ∀ c ∈ d.own?, c ∉ x.toList := by
    cases d with
    | mysql => simpa [Dialect.own?] using hx.1
    | postgres => simpa [Dialect.own?] using hx.2
    | sqlite => simp [Dialect.own?]
  exact fun n cs h => (ht n cs h).fixed hown fun _ => rfl

theorem Common.name {i : Identifier} (ht : Common d t) : Common d (.name i :: t) :=
  fun n cs h => (ht n cs h).name

theorem Common.param {v : Value} (ht : Common d t) (ho : Opens d t) : Common d (.param v :: t) :=
  fun n cs h => (ht (n + 1) cs h).param fun _ => ho (n + 1) cs h

theorem Common.joined {separator : String} (hx : Shared separator)
    (ho : opensWithoutDigit separator = true) {ts : List Template} (h : ∀ t ∈ ts, Common d t) :
    Common d (joined separator ts) := by
  induction ts with
  | nil => exact common_nil
  | cons t ts ih =>
      obtain ⟨ht, hts⟩ := List.forall_mem_cons.mp h
      cases ts with
      | nil => exact ht
      | cons u us => exact ht.append ((ih hts).text hx) (opens_text ho)

/-! ## Templates whose marks are known -/

theorem length_params_le (n : ℕ) (t : Template) :
    (params t).length ≤ (printFrom .postgres n t).toList.count '$' := by
  induction t generalizing n with
  | nil => simp [params]
  | cons p t ih =>
      cases p with
      | param v =>
          have hrest := ih (n + 1)
          rw [params, printFrom, String.toList_append, Text.toList_placeholder_postgres, List.length_cons,
            List.cons_append, List.count_cons_self, List.count_append]
          omega
      | text x | raw x | name x | literal x =>
          have hrest := ih n
          simp only [params, printFrom, String.toList_append, List.count_append] at hrest ⊢
          omega

/-- The marks of the parameters, and no others, are found in what PostgreSQL gets from a position on. -/
def MarkedFrom (n : ℕ) (t : Template) : Prop :=
  ∀ cs, NoDigitFirst cs → Dialect.postgres.marks ((printFrom .postgres n t).toList ++ cs) =
    (List.range' n (params t).length).map Dialect.postgres.placeholder ++ Dialect.postgres.marks cs

/-- Each parameter has its mark already, so there is no further one in fixed text. -/
private theorem MarkedFrom.of_fixed {p : Piece} {x : String} (hparams : params (p :: t) = params t)
    (hprint : printFrom .postgres n (p :: t) = x ++ printFrom .postgres n t) (h : MarkedFrom n (p :: t)) :
    '$' ∉ x.toList ∧ MarkedFrom n t := by
  rw [MarkedFrom, hparams, hprint] at h
  simp only [String.toList_append, List.append_assoc] at h
  have hx : '$' ∉ x.toList := by
    have hlength := congrArg List.length (h [] (by simp [NoDigitFirst]))
    have hle := length_params_le n t
    simp only [Dialect.length_marks_postgres, List.append_nil, List.count_append, List.length_append,
      List.length_map, List.length_range', List.count_nil] at hlength
    exact List.count_eq_zero.mp (by omega)
  refine ⟨hx, fun cs hcs => ?_⟩
  rw [← h cs hcs, Dialect.postgres.marks_append_of_notMem hx]

/-- The first mark has the number of its parameter, so no digit follows it. -/
theorem MarkedFrom.of_param {v : Value} (h : MarkedFrom n (.param v :: t)) :
    (∀ cs, NoDigitFirst cs → NoDigitFirst ((printFrom .postgres (n + 1) t).toList ++ cs)) ∧
      MarkedFrom (n + 1) t := by
  have hmarks : ∀ cs, NoDigitFirst cs →
      Dialect.postgres.markBefore (Text.digits n ++ ((printFrom .postgres (n + 1) t).toList ++ cs)) =
        Dialect.postgres.placeholder n ∧
      Dialect.postgres.marks ((printFrom .postgres (n + 1) t).toList ++ cs) =
        (List.range' (n + 1) (params t).length).map Dialect.postgres.placeholder ++
          Dialect.postgres.marks cs := by
    intro cs hcs
    have hall := h cs hcs
    rwa [params, printFrom, String.toList_append, List.append_assoc, Dialect.marks_postgres_placeholder,
      List.length_cons, List.range'_succ, List.map_cons, List.cons_append, List.cons.injEq] at hall
  exact ⟨fun cs hcs => Dialect.noDigitFirst_of_markBefore (hmarks cs hcs).1,
    fun cs hcs => (hmarks cs hcs).2⟩

theorem MarkedFrom.common (h : MarkedFrom n t) (hcs : NoDigitFirst cs) : CommonAt .postgres n cs t := by
  induction t generalizing n with
  | nil => exact commonAt_nil
  | cons p t ih =>
      cases p with
      | param v =>
          obtain ⟨hopens, hrest⟩ := h.of_param
          exact (ih hrest).param fun _ => hopens cs hcs
      | text x =>
          obtain ⟨hx, hrest⟩ := h.of_fixed (x := x) rfl rfl
          exact (ih hrest).fixed (by simpa [Dialect.own?] using hx) fun _ => rfl
      | raw x =>
          obtain ⟨hx, hrest⟩ := h.of_fixed (x := x) rfl rfl
          exact (ih hrest).fixed (by simpa [Dialect.own?] using hx) fun _ => rfl
      | literal x =>
          obtain ⟨hx, hrest⟩ := h.of_fixed (x := "'" ++ x ++ "'") rfl rfl
          exact (ih hrest).fixed (by simpa [Dialect.own?] using hx) fun _ => rfl
      | name i =>
          obtain ⟨-, hrest⟩ := h.of_fixed (x := Dialect.postgres.quoted i) rfl rfl
          exact (ih hrest).name

theorem Plain.common_mysql (h : Plain t) : CommonAt .mysql n cs t := by
  induction t generalizing n with
  | nil => exact commonAt_nil
  | cons p t ih =>
      obtain ⟨hp, hrest⟩ := plain_cons.mp h
      cases p with
      | text x =>
          exact (ih hrest).fixed (by simpa [Dialect.own?] using notMem_plain hp (by decide)) fun _ => rfl
      | raw x => exact hp.elim
      | literal x =>
          have hx := notMem_literal hp (c := '\x60') (by decide)
          exact (ih hrest).fixed (x := "'" ++ x ++ "'") (by simpa [Dialect.own?] using hx) fun _ => rfl
      | name i => exact (ih hrest).name
      | param v => exact (ih hrest).param (fun heq => by cases heq)

/-- A template of plain pieces that carries values in PostgreSQL is printed in the common text. -/
theorem Plain.common (ht : Plain t) (hcarries : Carries .postgres vs t) (d : Dialect) : Common d t := by
  intro n cs hcs
  cases d with
  | sqlite => rfl
  | mysql => exact ht.common_mysql
  | postgres =>
      refine MarkedFrom.common (fun cs hcs => ?_) hcs
      rw [hcarries.params_eq]
      exact hcarries.marks_eq n cs hcs

end Template

end TableGate
