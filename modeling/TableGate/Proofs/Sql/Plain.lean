import TableGate.Proofs.Query.SelectedColumns
import TableGate.Proofs.Sql.Expression
import TableGate.Proofs.Text.Clean

/-! # Templates of plain pieces

All text in a template is fixed by the program, but for identifiers, for paths into JSON columns, for the
names of aggregate functions, and for raw fragments. All of it is plain, but for the raw fragments, and each
of these is followed by a blank, a comma or a closing parenthesis, or by nothing at all. -/

namespace TableGate

theorem Dialect.toList_quoted (d : Dialect) (n : Identifier) :
    (d.quoted n).toList = d.quote :: (n.text.toList ++ [d.quote]) := by
  simp [Dialect.quoted]

/-- No identifier holds the quote that stands around it. -/
theorem Dialect.quote_notMem (d : Dialect) (n : Identifier) : d.quote ∉ n.text.toList := by
  intro hmem
  have hword := n.isWordChar_of_mem hmem
  cases d <;> exact absurd hword (by decide)

theorem Template.toList_literal (s : String) : ("'" ++ s ++ "'").toList = '\'' :: (s.toList ++ ['\'']) := by
  simp

theorem Dialect.plain_placeholder (d : Dialect) (n : ℕ) : Text.Plain (d.placeholder n).toList := by
  cases d with
  | postgres =>
      rw [placeholder, String.toList_append]
      exact Text.Plain.append (by decide) (Text.plain_ofNat n)
  | mysql | sqlite => exact (by decide : Text.Plain "?".toList)

/-! ## Plain pieces -/

/-- The path of a literal: in one of the two forms in which a path that was understood is written. -/
def JsonStep.IsPathText (s : String) : Prop :=
  ∃ path steps, JsonStep.pathOf? path = .ok steps ∧
    (s = JsonStep.dollarPath steps ∨ s = JsonStep.bracePath steps)

/-- A character of a path: of a key or a position, or a character between these. -/
def JsonStep.isPathChar (c : Char) : Bool :=
  Text.isWordChar c || ['$', '.', ',', '[', ']', '\x7b', '\x7d'].contains c

theorem JsonStep.isPathChar_element {step : JsonStep} (h : step.IsWord) :
    ∀ c ∈ step.element.toList, isPathChar c = true := by
  intro c hc
  simp [isPathChar, h.isWordChar_element c hc]

theorem JsonStep.isPathChar_dollarStep {step : JsonStep} (h : step.IsWord) :
    ∀ c ∈ step.dollarStep.toList, isPathChar c = true := by
  have helement := isPathChar_element h
  cases step with
  | key name =>
      rw [dollarStep, String.toList_append, List.forall_mem_append]
      exact ⟨List.all_eq_true.mp (by decide), helement⟩
  | index n =>
      rw [dollarStep, String.toList_append, String.toList_append, List.forall_mem_append,
        List.forall_mem_append]
      exact ⟨⟨List.all_eq_true.mp (by decide), helement⟩, List.all_eq_true.mp (by decide)⟩

theorem JsonStep.isPathChar_dollarPath {steps : List JsonStep} (h : ∀ step ∈ steps, step.IsWord) :
    ∀ c ∈ (dollarPath steps).toList, isPathChar c = true := by
  rw [toList_dollarPath, List.forall_mem_cons]
  refine ⟨by decide, fun c hc => ?_⟩
  obtain ⟨step, hstep, hc⟩ := List.mem_flatMap.mp hc
  exact isPathChar_dollarStep (h step hstep) c hc

theorem JsonStep.isPathChar_bracePath {steps : List JsonStep} (h : ∀ step ∈ steps, step.IsWord) :
    ∀ c ∈ (bracePath steps).toList, isPathChar c = true := by
  have hinner : ∀ c ∈ (String.intercalate "," (steps.map element)).toList, isPathChar c = true := by
    induction steps with
    | nil => simp
    | cons step steps ih =>
        have hstep := isPathChar_element (h step List.mem_cons_self)
        have hrest := ih fun s hs => h s (List.mem_cons_of_mem step hs)
        cases steps with
        | nil => simpa using hstep
        | cons next steps =>
            simp only [List.map_cons] at hrest ⊢
            rw [String.intercalate_cons_cons, String.toList_append, String.toList_append,
              List.forall_mem_append, List.forall_mem_append]
            exact ⟨⟨hstep, List.all_eq_true.mp (by decide)⟩, hrest⟩
  rw [bracePath, String.toList_append, String.toList_append, List.forall_mem_append,
    List.forall_mem_append]
  exact ⟨⟨List.all_eq_true.mp (by decide), hinner⟩, List.all_eq_true.mp (by decide)⟩

/-- The characters of a path that was understood, however it is written. -/
theorem JsonStep.IsPathText.isPathChar {s : String} (h : IsPathText s) :
    ∀ c ∈ s.toList, JsonStep.isPathChar c = true := by
  obtain ⟨path, steps, hsteps, rfl | rfl⟩ := h
  · exact isPathChar_dollarPath (isWord_of_pathOf? hsteps)
  · exact isPathChar_bracePath (isWord_of_pathOf? hsteps)

theorem Text.isPlainChar_of_isPathChar {c : Char} (h : JsonStep.isPathChar c = true) :
    isPlainChar c = true := by
  rw [JsonStep.isPathChar, Bool.or_eq_true] at h
  rcases h with hword | hmem
  · exact isPlainChar_of_isWordChar hword
  · have hall : ['$', '.', ',', '[', ']', '\x7b', '\x7d'].all isPlainChar = true := by decide
    exact List.all_eq_true.mp hall c (List.contains_iff_mem.mp hmem)

/-- The piece has no text of the caller's own: a literal is a single blank or a path. -/
def Piece.Plain : Piece → Prop
  | .text s => Text.Plain s.toList
  | .name _ => True
  | .raw _ => False
  | .literal s => s = " " ∨ JsonStep.IsPathText s
  | .param _ => True

namespace Template

/-- All pieces of the template are plain. -/
def Plain (t : Template) : Prop :=
  ∀ p ∈ t, p.Plain

@[simp]
theorem plain_nil : Plain [] :=
  List.forall_mem_nil _

@[simp]
theorem plain_cons {p : Piece} {t : Template} : Plain (p :: t) ↔ p.Plain ∧ Plain t :=
  List.forall_mem_cons

@[simp]
theorem plain_append {s t : Template} : Plain (s ++ t) ↔ Plain s ∧ Plain t :=
  List.forall_mem_append

theorem plain_text {x : String} {t : Template} (hx : Text.Plain x.toList) (ht : Plain t) :
    Plain (.text x :: t) :=
  plain_cons.mpr ⟨hx, ht⟩

theorem plain_joined {separator : String} (hseparator : Text.Plain separator.toList) {ts : List Template}
    (h : ∀ t ∈ ts, Plain t) : Plain (joined separator ts) := by
  induction ts with
  | nil => exact plain_nil
  | cons t ts ih =>
      obtain ⟨ht, hts⟩ := List.forall_mem_cons.mp h
      cases ts with
      | nil => exact ht
      | cons u us => exact plain_append.mpr ⟨ht, plain_text hseparator (ih hts)⟩

theorem plain_flatMap {α : Type} {f : α → Template} {xs : List α} (h : ∀ x ∈ xs, Plain (f x)) :
    Plain (xs.flatMap f) := by
  intro p hp
  obtain ⟨x, hx, hmem⟩ := List.mem_flatMap.mp hp
  exact h x hx p hmem

theorem plain_parenthesized {t : Template} (h : Plain t) : Plain t.parenthesized := by
  have hclosed : Plain [.text ")"] := plain_text (by decide) plain_nil
  exact plain_text (by decide) (plain_append.mpr ⟨h, hclosed⟩)

end Template

/-! ## Columns and references -/

/-- Upper case of ASCII letters changes nothing where case does not count. -/
theorem Text.foldCase_toUpper (c : Char) : foldCase c.toUpper = foldCase c := by
  rcases Nat.lt_or_ge c.toNat 128 with hc | hc
  · have hall : ∀ n < 128, foldCase (Char.ofNat n).toUpper = foldCase (Char.ofNat n) := by decide
    simpa using hall c.toNat hc
  · rw [Text.toUpper_of_le hc]

theorem Text.isAggregate_upper {cs : List Char} (h : Text.isAggregate cs = true) :
    Text.isAggregate (Text.upper (String.ofList cs)).toList = true := by
  have hfold : (cs.map Char.toUpper).map Text.foldCase = cs.map Text.foldCase := by
    rw [List.map_map]
    exact List.map_congr_left fun c _ => Text.foldCase_toUpper c
  rw [Text.upper, String.toList_ofList, String.toList_ofList]
  unfold Text.isAggregate at h ⊢
  rwa [hfold]

/-- The expression is not empty, and a call in it is a call of an aggregate function. -/
def ColumnExpr.Regular : ColumnExpr → Prop
  | .path p => p ≠ .column []
  | .call function _ => Text.isAggregate function.toList = true

/-- Expressions that were understood are not empty and call nothing but aggregate functions. -/
theorem ColumnExpr.regular_of_of? {s : String} {e : ColumnExpr} (h : ColumnExpr.of? s = .ok e) :
    e.Regular := by
  unfold ColumnExpr.of? at h
  split at h
  · rename_i f a hcall
    obtain ⟨p, -, rfl⟩ := Except.map_eq_ok.mp h
    obtain ⟨-, -, -, -, -, -, hf, -⟩ := Text.aggregateCall?_eq_some hcall
    exact Text.isAggregate_upper hf
  · obtain ⟨p, hp, rfl⟩ := Except.map_eq_ok.mp h
    rintro rfl
    exact Text.pieces_ne_nil _ _ (Path.of?_eq_ok.mp hp).2

theorem ColumnExpr.regular_ofName (n : Identifier) : (ColumnExpr.ofName n).Regular := by
  simp [ColumnExpr.ofName, ColumnExpr.Regular]

theorem Text.plain_of_isAggregate {cs : List Char} (h : Text.isAggregate cs = true) : Text.Plain cs := by
  refine Text.plain_of_forall fun c hc => ?_
  have hletter : (Text.foldCase c).isAlpha = true := by
    by_contra hother
    exact Text.notMem_of_isAggregate h (by simpa using hother) hc
  have hspecial : c ∉ ['\'', '"', '\x60', '/', ';', '-'] :=
    Text.notMem_of_all (p := fun c => (Text.foldCase c).isAlpha) (by decide) hletter
  simpa [Text.isPlainChar] using hspecial

theorem Path.plain (p : Path) : p.template.Plain := by
  have hnames (names : List Identifier) : ∀ t ∈ Path.nameTemplates names, Template.Plain t := by
    intro t ht
    obtain ⟨n, -, rfl⟩ := List.mem_map.mp ht
    simp [Piece.Plain]
  cases p with
  | all => exact Template.plain_text (by decide) Template.plain_nil
  | column names => exact Template.plain_joined (by decide) (hnames names)
  | allOf names =>
      refine Template.plain_joined (by decide) fun t ht => ?_
      rcases List.mem_append.mp ht with ht | ht
      · exact hnames names t ht
      · rw [List.mem_singleton.mp ht]
        exact Template.plain_text (by decide) Template.plain_nil

theorem ColumnExpr.plain {e : ColumnExpr} (h : e.Regular) : e.template.Plain := by
  cases e with
  | path p => exact p.plain
  | call function p =>
      have hname : Text.Plain (function.toList ++ ['(']) :=
        (Text.plain_of_isAggregate h).append (by decide)
      simp +decide [ColumnExpr.template, Piece.Plain, p.plain, hname]

theorem ColumnExpr.plain_of_of? {s : String} {e : ColumnExpr} (h : ColumnExpr.of? s = .ok e) :
    e.template.Plain :=
  ColumnExpr.plain (ColumnExpr.regular_of_of? h)

theorem ColumnExpr.plain_mapM {ss : List String} {es : List ColumnExpr}
    (h : ss.mapM ColumnExpr.of? = .ok es) : ∀ t ∈ es.map ColumnExpr.template, Template.Plain t := by
  intro t ht
  obtain ⟨e, he, rfl⟩ := List.mem_map.mp ht
  obtain ⟨s, -, hs⟩ := Except.exists_of_mem_mapM h he
  exact ColumnExpr.plain_of_of? hs

theorem Reference.plain {r : Reference} (h : r.expression.Regular) : r.template.Plain := by
  have hexpression := ColumnExpr.plain h
  unfold Reference.template
  split
  · simp +decide [hexpression, Piece.Plain]
  · exact hexpression

theorem Reference.regular_of_of? {s : String} {r : Reference} (h : Reference.of? s = .ok r) :
    r.expression.Regular := by
  unfold Reference.of? at h
  split at h
  · simp only [Except.bind_eq_ok, Except.pure_eq_ok] at h
    obtain ⟨e, he, n, -, rfl⟩ := h
    exact ColumnExpr.regular_of_of? he
  · obtain ⟨e, he, rfl⟩ := Except.map_eq_ok.mp h
    exact ColumnExpr.regular_of_of? he

theorem Reference.plain_of_of? {s : String} {r : Reference} (h : Reference.of? s = .ok r) :
    r.template.Plain :=
  Reference.plain (Reference.regular_of_of? h)

/-! ## Templates with raw fragments -/

/-- The text is set off from what stands before it. -/
def isSetOff (s : String) : Bool :=
  s.toList.head?.any fun c => c == ' ' || c == ',' || c == ')'

namespace Template

/-- The text of the template is empty or set off from what stands before it. -/
def SetOff : Template → Prop
  | [] => True
  | .text s :: rest => isSetOff s = true ∨ s = "" ∧ SetOff rest
  | _ => False

/-- All pieces are plain but for raw fragments with the given property, from which what follows is set
off. -/
def Vetted (R : String → Prop) : Template → Prop
  | [] => True
  | .raw x :: rest => R x ∧ SetOff rest ∧ Vetted R rest
  | p :: rest => p.Plain ∧ Vetted R rest

variable {R : String → Prop} {s t : Template}

theorem setOff_text {x : String} (h : isSetOff x = true) (t : Template) : SetOff (.text x :: t) :=
  .inl h

theorem SetOff.append (hs : SetOff s) (ht : SetOff t) : SetOff (s ++ t) := by
  induction s with
  | nil => exact ht
  | cons p s ih =>
      cases p with
      | text x => exact hs.imp_right fun h => ⟨h.1, ih h.2⟩
      | name | raw | literal | param => exact hs.elim

theorem vetted_cons {p : Piece} (hp : p.Plain) (ht : Vetted R t) : Vetted R (p :: t) := by
  cases p with
  | raw x => exact hp.elim
  | text | name | literal | param => exact ⟨hp, ht⟩

theorem Plain.vetted_append (hs : Plain s) (ht : Vetted R t) : Vetted R (s ++ t) := by
  induction s with
  | nil => exact ht
  | cons p s ih =>
      obtain ⟨hp, hs⟩ := plain_cons.mp hs
      exact vetted_cons hp (ih hs)

theorem Plain.vetted (hs : Plain s) : Vetted R s := by
  have h := hs.vetted_append (R := R) (t := []) trivial
  rwa [List.append_nil] at h

theorem Vetted.append (hs : Vetted R s) (ht : Vetted R t) (hset : SetOff t) : Vetted R (s ++ t) := by
  induction s with
  | nil => exact ht
  | cons p s ih =>
      cases p with
      | raw x => exact ⟨hs.1, hs.2.1.append hset, ih hs.2.2⟩
      | text | name | literal | param => exact ⟨hs.1, ih hs.2⟩

theorem vetted_raw {x : String} (h : R x) : Vetted R [.raw x] :=
  ⟨h, trivial, trivial⟩

theorem vetted_joined {separator : String} (hseparator : Text.Plain separator.toList)
    (hset : isSetOff separator = true) {ts : List Template} (h : ∀ t ∈ ts, Vetted R t) :
    Vetted R (joined separator ts) := by
  induction ts with
  | nil => trivial
  | cons t ts ih =>
      obtain ⟨ht, hts⟩ := List.forall_mem_cons.mp h
      cases ts with
      | nil => exact ht
      | cons u us => exact ht.append (vetted_cons hseparator (ih hts)) (setOff_text hset _)

end Template

end TableGate
