import TableGate.Proofs.Query.Regular
import TableGate.Proofs.Sql.Formula

/-! # Predicates are read as predicates

The tokens of a regular predicate belong to a single predicate for the reader of a formula: no AND or OR in
them joins anything, no parenthesis in them is left open, and they do not open with one. -/

namespace TableGate

open Token Template

/-! ## Tokens without meaning in a formula -/

namespace Token

/-- The tokens open with one that has no meaning in a formula, and the others are neutral. -/
def Headed (ts : List Token) : Prop :=
  ∃ t us, ts = t :: us ∧ t.isPlain = true ∧ Neutral us

theorem Headed.neutral {ts : List Token} (h : Headed ts) : Neutral ts := by
  obtain ⟨t, us, rfl, ht, hus⟩ := h
  have hhead : Neutral [t] := neutral_of_forall (by simpa using ht)
  exact hhead.append hus

theorem Headed.append {ts us : List Token} (hts : Headed ts) (hus : Neutral us) : Headed (ts ++ us) := by
  obtain ⟨t, rest, rfl, ht, hrest⟩ := hts
  exact ⟨t, rest ++ us, rfl, ht, hrest.append hus⟩

theorem isPlain_word {cs : List Char}
    (h : ∀ keyword ∈ ["AND", "OR", "BETWEEN"], Text.upper (String.ofList cs) ≠ keyword) :
    (word cs).isPlain = true := by
  simp only [List.mem_cons, List.not_mem_nil, or_false, forall_eq_or_imp, forall_eq] at h
  simp [isPlain, connector?, isKeyword, h]

/-- The name of an aggregate function is no keyword of a formula. -/
theorem isPlain_of_isAggregate {cs : List Char} (h : Text.isAggregate cs = true) :
    (word cs).isPlain = true := by
  refine isPlain_word fun keyword hkeyword heq => ?_
  have hall : ∀ keyword ∈ ["AND", "OR", "BETWEEN"], Text.isAggregate keyword.toList = false := by decide
  have hupper := Text.isAggregate_upper h
  rw [heq, hall keyword hkeyword] at hupper
  cases hupper

theorem isPlain_digits (n : ℕ) : (word (Text.digits n)).isPlain = true := by
  refine isPlain_word fun keyword hkeyword heq => ?_
  have hall : ∀ keyword ∈ ["AND", "OR", "BETWEEN"], keyword.toList.head?.any Char.isDigit = false := by
    decide
  have hfirst := hall keyword hkeyword
  cases hdigits : Text.digits n with
  | nil => exact Text.digits_ne_nil n hdigits
  | cons c cs =>
      have hc : c.isDigit = true := Text.isDigit_of_mem_digits (n := n) (by simp [hdigits])
      simp [← heq, hdigits, Text.upper, Text.toUpper_of_isDigit hc, hc] at hfirst

end Token

theorem Text.isPart_of_isAggregate {cs : List Char} (h : isAggregate cs = true) :
    ∀ c ∈ cs, isPart c = true := by
  intro c hc
  by_contra hpart
  have hnone : (foldCase c).isAlpha = false := by
    have hascii : c.toNat < 128 := by
      by_contra hbeyond
      exact hpart (by simp [isPart, Nat.not_lt.mp hbeyond])
    have hall : ∀ n < 128, isPart (Char.ofNat n) = false → (foldCase (Char.ofNat n)).isAlpha = false := by
      decide
    simpa using hall c.toNat hascii (by simpa using hpart)
  exact notMem_of_isAggregate h hnone hc

/-! ## Templates without meaning in a formula -/

namespace Template

/-- Wherever its parameters are numbered from, the template is read as tokens with the property. -/
def ReadsAs (d : Dialect) (P : List Token → Prop) (t : Template) : Prop :=
  ∀ n, ∃ ts, Reads d n t ts ∧ P ts

variable {d : Dialect} {s t : Template} {P Q : List Token → Prop}

theorem ReadsAs.imp (h : ReadsAs d P t) (hPQ : ∀ ts, P ts → Q ts) : ReadsAs d Q t := by
  intro n
  obtain ⟨ts, hts, hP⟩ := h n
  exact ⟨ts, hts, hPQ ts hP⟩

theorem ReadsAs.neutral (h : ReadsAs d Headed t) : ReadsAs d Neutral t :=
  h.imp fun _ => Headed.neutral

theorem ReadsAs.append (hs : ReadsAs d Headed s) (ht : ReadsAs d Neutral t) (ha : Apart d t) :
    ReadsAs d Headed (s ++ t) := by
  intro n
  obtain ⟨ss, hss, hheaded⟩ := hs n
  obtain ⟨ts, hts, hneutral⟩ := ht (n + (params s).length)
  exact ⟨ss ++ ts, hss.append hts ha, hheaded.append hneutral⟩

/-- Fixed text without meaning in a formula, in front of neutral tokens. -/
theorem ReadsAs.text {x : String} (hx : Text.EndsBetween x.toList)
    (hplain : ∀ t ∈ Text.tokens x.toList, t.isPlain = true) (ht : ReadsAs d Neutral t) :
    ReadsAs d Neutral (.text x :: t) := by
  intro n
  obtain ⟨ts, hts, hneutral⟩ := ht n
  exact ⟨_, hts.text_between hx, (neutral_of_forall hplain).append hneutral⟩

theorem readsAs_nil : ReadsAs d Neutral [] :=
  fun _ => ⟨[], reads_nil, neutral_nil⟩

theorem readsAs_name (i : Identifier) : ReadsAs d Headed [.name i] :=
  fun _ => ⟨_, reads_nil.name, _, [], rfl, rfl, neutral_nil⟩

theorem readsAs_param (v : Value) : ReadsAs d Headed [.param v] := by
  intro n
  refine ⟨_, reads_nil.param apart_nil, ?_⟩
  rw [List.append_nil]
  cases d with
  | mysql | sqlite => exact ⟨.symbol '?', [], rfl, by decide, neutral_nil⟩
  | postgres =>
      refine ⟨.symbol '$', [.word (Text.digits n)], rfl, by decide, neutral_of_forall fun t ht => ?_⟩
      rw [List.mem_singleton.mp ht]
      exact isPlain_digits n

/-- Templates in a row with fixed text between them. -/
theorem readsAs_joined {separator : String} (hx : Text.EndsBetween separator.toList)
    (ha : separator.toList.head?.any (fun c => !Text.isPart c) = true)
    (hplain : ∀ t ∈ Text.tokens separator.toList, t.isPlain = true) {ts : List Template} (hne : ts ≠ [])
    (h : ∀ t ∈ ts, ReadsAs d Headed t) : ReadsAs d Headed (joined separator ts) := by
  induction ts with
  | nil => exact absurd rfl hne
  | cons t ts ih =>
      obtain ⟨ht, hts⟩ := List.forall_mem_cons.mp h
      cases ts with
      | nil => exact ht
      | cons u us =>
          have hrest := (ih (List.cons_ne_nil u us) hts).neutral
          exact ht.append (hrest.text hx hplain) (apart_text ha)

/-- The same with commas between them, where there may be none. -/
theorem readsAs_list {ts : List Template} (h : ∀ t ∈ ts, ReadsAs d Headed t) :
    ReadsAs d Neutral (joined ", " ts) := by
  cases ts with
  | nil => exact readsAs_nil
  | cons t ts =>
      exact (readsAs_joined (by decide) (by decide) (by decide) (List.cons_ne_nil t ts) h).neutral

end Template

theorem Path.readsAs {d : Dialect} {p : Path} (h : p ≠ .column []) : ReadsAs d Headed p.template := by
  have hstar : ReadsAs d Headed [.text "*"] :=
    fun _ => ⟨_, reads_text (by decide), .symbol '*', [], rfl, by decide, neutral_nil⟩
  have hnames (names : List Identifier) : ∀ t ∈ nameTemplates names, ReadsAs d Headed t := by
    intro t ht
    obtain ⟨n, -, rfl⟩ := List.mem_map.mp ht
    exact readsAs_name n
  cases p with
  | all => exact hstar
  | column names =>
      have hne : nameTemplates names ≠ [] := by
        intro hnil
        exact h (by rw [List.map_eq_nil_iff.mp hnil])
      exact readsAs_joined (by decide) (by decide) (by decide) hne (hnames names)
  | allOf names =>
      refine readsAs_joined (by decide) (by decide) (by decide) (by simp) fun t ht => ?_
      rcases List.mem_append.mp ht with ht | ht
      · exact hnames names t ht
      · rw [List.mem_singleton.mp ht]
        exact hstar

theorem Path.readsAs_neutral {d : Dialect} (p : Path) : ReadsAs d Neutral p.template := by
  by_cases h : p = .column []
  · rw [h]
    exact readsAs_nil
  · exact (Path.readsAs h).neutral

theorem ColumnExpr.readsAs {d : Dialect} {e : ColumnExpr} (h : e.Regular) :
    ReadsAs d Headed e.template := by
  cases e with
  | path p => exact Path.readsAs h
  | call function p =>
      intro n
      obtain ⟨ts, hts, hneutral⟩ := p.readsAs_neutral (d := d) n
      have hne : function.toList ≠ [] := by
        intro hnil
        rw [ColumnExpr.Regular, hnil] at h
        exact absurd h (by decide)
      have hclosed : Reads d n (p.template ++ [.text ")"]) (ts ++ [.symbol ')']) :=
        hts.append (reads_text (by decide)) (apart_text (by decide))
      refine ⟨.word function.toList :: .symbol '(' :: (ts ++ [.symbol ')']), ?_, _, _, rfl,
        isPlain_of_isAggregate h, hneutral.parenthesized⟩
      intro cs hcs
      have hbreaks : Text.Breaks "(".toList := by
        rintro c ⟨⟩
        decide
      have hopening :
          Text.tokens ("(".toList ++ ((printFrom d n (p.template ++ [.text ")"])).toList ++ cs)) =
            [.symbol '('] ++ (ts ++ [.symbol ')'] ++ Text.tokens cs) := by
        rw [Text.tokens_append_of_between (by decide), hclosed cs hcs]
        rfl
      rw [ColumnExpr.template, List.cons_append, printFrom, String.toList_append, String.toList_append,
        List.append_assoc, List.append_assoc, Text.tokens_word_append hne (Text.isPart_of_isAggregate h)
          (breaks_append (by decide) hbreaks _), hopening]
      rfl

theorem Operand.readsAs {d : Dialect} {o : Operand} (h : o.Regular) : ReadsAs d Headed o.template := by
  cases o with
  | column e => exact ColumnExpr.readsAs h
  | value v => exact readsAs_param v

theorem ColumnExpr.readsAs_list {d : Dialect} {es : List ColumnExpr} (h : ∀ e ∈ es, e.Regular) :
    ReadsAs d Neutral (Atom.columnTemplates es) := by
  refine Template.readsAs_list fun t ht => ?_
  obtain ⟨e, he, rfl⟩ := List.mem_map.mp ht
  exact ColumnExpr.readsAs (h e he)

theorem Reference.readsAs {d : Dialect} {r : Reference} (h : r.expression.Regular) :
    ReadsAs d Headed r.template := by
  have hexpression := ColumnExpr.readsAs (d := d) h
  unfold Reference.template
  split
  · rename_i label _
    exact hexpression.append ((readsAs_name label).neutral.text (by decide) (by decide))
      (apart_text (by decide))
  · exact hexpression

/-! ## Predicates -/

namespace Template

variable {d : Dialect} {s t : Template} {a b c : ℕ × Bool}

/-- The template leads from one place inside of a predicate to another one. -/
def Leads (d : Dialect) (a b : ℕ × Bool) (t : Template) : Prop :=
  ReadsAs d (fun ts => shifts ts a = some b) t

theorem ReadsAs.leads (h : ReadsAs d Neutral t) (a : ℕ × Bool) : Leads d a a t :=
  h.imp fun _ hts => hts a

theorem Leads.append (hs : Leads d a b s) (ht : Leads d b c t) (ha : Apart d t) : Leads d a c (s ++ t) := by
  intro n
  obtain ⟨ss, hss, hab⟩ := hs n
  obtain ⟨ts, hts, hbc⟩ := ht (n + (params s).length)
  exact ⟨ss ++ ts, hss.append hts ha, shifts_trans hab hbc⟩

/-- Fixed text with nothing open at its end. -/
theorem Leads.text {x : String} (hx : Text.EndsBetween x.toList)
    (hab : shifts (Text.tokens x.toList) a = some b) (ht : Leads d b c t) : Leads d a c (.text x :: t) := by
  intro n
  obtain ⟨ts, hts, hbc⟩ := ht n
  exact ⟨_, hts.text_between hx, shifts_trans hab hbc⟩

theorem leads_text {x : String} (hx : Text.EndsOutside x.toList)
    (hab : shifts (Text.tokens x.toList) a = some b) : Leads d a b [.text x] :=
  fun _ => ⟨_, reads_text hx, hab⟩

theorem leads_literal {x : String} (hx : '\'' ∉ x.toList) : Leads d a a [.literal x] := by
  have hplain : (Token.quoted '\'' x.toList).isPlain = true := by simp [isPlain, connector?, isKeyword]
  exact fun n => ⟨_, reads_nil.literal hx, (neutral_of_forall (by simpa using hplain)) a⟩

/-- What follows the head of a predicate, which is a predicate with it. -/
theorem ReadsAs.atomic (hs : ReadsAs d Headed s) (ht : Leads d (0, false) (0, false) t) (ha : Apart d t) :
    ReadsAs d Atomic (s ++ t) := by
  intro n
  obtain ⟨_, hss, head, rest, rfl, hhead, hrest⟩ := hs n
  obtain ⟨ts, hts, hshifts⟩ := ht (n + (params s).length)
  obtain ⟨hfirst, hmoves⟩ := hrest.atomic hhead
  exact ⟨_, hss.append hts ha, hfirst, shifts_trans hmoves hshifts⟩

/-- The same where the head is fixed text. -/
theorem Leads.atomic {x : String} (hx : Text.EndsBetween x.toList)
    (hfirst : (Text.tokens x.toList).head?.any (fun t => t != .symbol '(') = true)
    (ha : shifts (Text.tokens x.toList) (0, false) = some a) (ht : Leads d a (0, false) t) :
    ReadsAs d Atomic (.text x :: t) := by
  intro n
  obtain ⟨ts, hts, hshifts⟩ := ht n
  refine ⟨_, hts.text_between hx, ?_, shifts_trans ha hshifts⟩
  cases htokens : Text.tokens x.toList with
  | nil => simp [htokens] at hfirst
  | cons head rest => simpa [htokens] using hfirst

end Template

namespace Atom

variable {d : Dialect}

theorem atomic_nullTest {column : Template} (h : ReadsAs d Headed column) (negated : Bool) :
    ReadsAs d Atomic (column ++ [.text (if negated then " IS NOT NULL" else " IS NULL")]) := by
  cases negated with
  | true => exact h.atomic (leads_text (by decide) (by decide)) (apart_text (by decide))
  | false => exact h.atomic (leads_text (by decide) (by decide)) (apart_text (by decide))

theorem atomic_compare {column : ColumnExpr} {operator : Operator} {operand : Operand}
    (hoperator : operator ≠ .between) (hcolumn : column.Regular) (hoperand : operand.Regular) :
    ReadsAs d Atomic (Atom.compare column operator operand).template := by
  have hcolumn := ColumnExpr.readsAs (d := d) hcolumn
  have hvalue := (Operand.readsAs (d := d) hoperand).neutral.leads (0, false)
  cases operator with
  | between => exact absurd rfl hoperator
  | _ => exact hcolumn.atomic (.text (by decide) (by decide) hvalue) (apart_text (by decide))

theorem atomic_among {column : ColumnExpr} {operands : List Operand} (hcolumn : column.Regular)
    (hoperands : ∀ o ∈ operands, o.Regular) (negated : Bool) :
    ReadsAs d Atomic (Atom.among column negated operands).template := by
  have hlist : ReadsAs d Neutral (joined ", " (operands.map Operand.template)) := by
    refine readsAs_list fun t ht => ?_
    obtain ⟨o, ho, rfl⟩ := List.mem_map.mp ht
    exact Operand.readsAs (hoperands o ho)
  have hclosed : Leads d (1, false) (0, false)
      (joined ", " (operands.map Operand.template) ++ [.text ")"]) :=
    (hlist.leads _).append (leads_text (by decide) (by decide)) (apart_text (by decide))
  have hcolumn := ColumnExpr.readsAs (d := d) hcolumn
  rw [template, List.append_assoc]
  cases negated with
  | true => exact hcolumn.atomic (hclosed.text (by decide) (by decide)) (apart_text (by decide))
  | false => exact hcolumn.atomic (hclosed.text (by decide) (by decide)) (apart_text (by decide))

/-- The AND behind a BETWEEN ends its waiting. -/
theorem atomic_between {column : ColumnExpr} {low high : Operand} (hcolumn : column.Regular)
    (hlow : low.Regular) (hhigh : high.Regular) :
    ReadsAs d Atomic (Atom.between column low high).template := by
  have hupper : Leads d (0, true) (0, false) (.text " AND " :: high.template) :=
    .text (by decide) (by decide) ((Operand.readsAs hhigh).neutral.leads (0, false))
  have hrange : Leads d (0, false) (0, false)
      (.text " BETWEEN " :: (low.template ++ .text " AND " :: high.template)) :=
    .text (by decide) (by decide)
      (((Operand.readsAs hlow).neutral.leads (0, true)).append hupper (apart_text (by decide)))
  rw [template, List.append_assoc]
  exact (ColumnExpr.readsAs hcolumn).atomic hrange (apart_text (by decide))

theorem leads_document {columns : List ColumnExpr} (h : ∀ e ∈ columns, e.Regular) :
    Leads d (1, false) (1, false) (document columns) := by
  unfold document
  split
  · exact (ColumnExpr.readsAs (h _ List.mem_cons_self)).neutral.leads _
  · have hcolumns : Leads d (2, false) (1, false) (columnTemplates columns ++ [.text ")"]) :=
      ((ColumnExpr.readsAs_list h).leads (2, false)).append (leads_text (by decide) (by decide))
        (apart_text (by decide))
    have hblank : Leads d (2, false) (1, false)
        (.literal " " :: .text ", " :: (columnTemplates columns ++ [.text ")"])) :=
      (leads_literal (by decide)).append (hcolumns.text (by decide) (by decide)) (apart_text (by decide))
    exact hblank.text (by decide) (by decide)

/-- The words of a search are in the parentheses of a call. -/
theorem leads_term (term : String) {x : String} (hx : Text.EndsOutside x.toList)
    (hopens : x.toList.head?.any (fun c => !Text.isPart c) = true)
    (hcloses : shifts (Text.tokens x.toList) (1, false) = some (0, false)) :
    Leads d (1, false) (0, false) [.param (.text term), .text x] :=
  ((readsAs_param (.text term)).neutral.leads (1, false)).append (leads_text hx hcloses) (apart_text hopens)

theorem atomic_search (form : SearchForm) {columns : List ColumnExpr} (h : ∀ e ∈ columns, e.Regular)
    (term : String) : ReadsAs d Atomic (searchTemplate form columns term) := by
  have hmatch {x : String} (hx : Leads d (1, false) (0, false) [.param (.text term), .text x]) :
      ReadsAs d Atomic (.text "MATCH(" ::
        (columnTemplates columns ++ [.text ") AGAINST(", .param (.text term), .text x])) :=
    Leads.atomic (by decide) (by decide) (by decide)
      (((ColumnExpr.readsAs_list h).leads (1, false)).append (hx.text (by decide) (by decide))
        (apart_text (by decide)))
  cases form with
  | matchBoolean => exact hmatch (leads_term term (by decide) (by decide) (by decide))
  | matchNatural => exact hmatch (leads_term term (by decide) (by decide) (by decide))
  | textVector =>
      have hterm : Leads d (1, false) (0, false)
          [.text ") @@ plainto_tsquery(", .param (.text term), .text ")"] :=
        .text (by decide) (by decide) (leads_term term (by decide) (by decide) (by decide))
      exact Leads.atomic (by decide) (by decide) (by decide)
        ((leads_document h).append hterm (apart_text (by decide)))

/-- A regular predicate is read as one predicate. -/
theorem readsAs {a : Atom} (h : a.Regular) : ReadsAs d Atomic a.template := by
  cases a with
  | nullTest column negated => exact atomic_nullTest (ColumnExpr.readsAs h) negated
  | compare column operator operand => exact atomic_compare h.1 h.2.1 h.2.2
  | among column negated operands => exact atomic_among h.1 h.2 negated
  | between column low high => exact atomic_between h.1 h.2.1 h.2.2
  | constant holds =>
      cases holds <;> exact fun _ => ⟨_, reads_text (by decide), by decide, by decide⟩
  | search form columns term => exact atomic_search form h term
  | notDeleted column => exact atomic_nullTest (Reference.readsAs h) false

end Atom

end TableGate
