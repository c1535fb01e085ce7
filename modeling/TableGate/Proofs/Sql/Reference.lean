import TableGate.Proofs.Sql.Expression

/-! # Tables and the names by which a query refers to them

A table text splits into the name of the table and the name that a query has for it. The first is what
its reference points to, and columns are qualified with the second. -/

namespace TableGate

namespace Text

theorem aliased?_eq_some {s base name : String} :
    aliased? s = some (base, name) ↔
      ∃ keyword, wordsOf s.toList = [base.toList, keyword, name.toList] ∧ isAs keyword = true := by
  unfold aliased?
  constructor
  · intro h
    split at h
    · rename_i b keyword n hwords
      split at h
      · rename_i has
        cases h
        exact ⟨keyword, by simpa using hwords, has⟩
      · cases h
    · cases h
  · rintro ⟨keyword, hwords, has⟩
    simp [hwords, has]

theorem aliased?_congr {s t : String} (h : wordsOf s.toList = wordsOf t.toList) :
    aliased? s = aliased? t := by
  rw [aliased?, aliased?, h]

/-- The last word of one text and the first word of another one that follows it without a blank are one
word. -/
theorem wordsOf_append {xs ys last first : List Char} {front rest : List (List Char)}
    (hxs : pieces isBlank xs = front ++ [last]) (hys : pieces isBlank ys = first :: rest)
    (hne : last ++ first ≠ []) :
    wordsOf (xs ++ ys) = front.filter (!·.isEmpty) ++ (last ++ first) :: rest.filter (!·.isEmpty) := by
  rw [wordsOf, pieces_append hxs hys, List.filter_append, List.filter_cons_of_pos]
  simpa using hne

end Text

namespace Reference

/-- The names by which columns of a table are qualified: its alias, or else its own names. -/
def ownNames (r : Reference) : Option (List Identifier) :=
  match r.label, r.expression with
  | some label, _ => some [label]
  | none, .path (.column names) => some names
  | none, _ => none

/-- The column below the names of a path, with the alias that the column has. -/
theorem of?_path_under {own : List Char} {p : Path} (hown : Path.of? own = .ok p) {column : String}
    {r : Reference} (h : of? (String.ofList (own ++ '.' :: column.toList)) = .ok r) :
    ∃ names q label, p = .column names ∧ of? column = .ok ⟨.path q, label⟩ ∧
      r = ⟨.path (q.under names), label⟩ := by
  have hsolid := Path.solid_of_of? hown
  obtain ⟨first, rest, hpieces⟩ := Text.exists_pieces Text.isBlank column.toList
  have hdotted : Text.pieces Text.isBlank ('.' :: column.toList) = ('.' :: first) :: rest :=
    Text.pieces_cons_of_neg (by decide) hpieces
  have hone : Text.pieces Text.isBlank own = [] ++ [own] := Text.pieces_of_forall_not hsolid
  have hwords := Text.wordsOf_append hone hdotted (by simp)
  unfold of? at h
  split at h
  · rename_i base name halias
    obtain ⟨keyword, hthree, has⟩ := Text.aliased?_eq_some.mp halias
    simp only [Except.bind_eq_ok, Except.pure_eq_ok] at h
    obtain ⟨e, he, label, hlabel, rfl⟩ := h
    rw [String.toList_ofList, hwords] at hthree
    simp only [List.filter_nil, List.nil_append, List.cons.injEq] at hthree
    obtain ⟨hbase, hrest⟩ := hthree
    rw [← String.ofList_toList (s := base), ← hbase] at he
    obtain ⟨names, q, rfl, hq, rfl⟩ := ColumnExpr.of?_under hown he
    have hfirst : first ≠ [] := by
      rintro rfl
      exact Path.ne_nil_of_of? (ColumnExpr.of?_eq_path.mp hq) rfl
    have hcolumn : Text.aliased? column = some (String.ofList first, name) := by
      refine Text.aliased?_eq_some.mpr ⟨keyword, ?_, has⟩
      rw [Text.wordsOf, hpieces, List.filter_cons_of_pos (by simpa using hfirst), hrest,
        String.toList_ofList]
    refine ⟨names, q, some label, rfl, ?_, rfl⟩
    simp [of?, hcolumn, hq, hlabel, bind, Except.bind, pure, Except.pure]
  · obtain ⟨e, he, rfl⟩ := Except.map_eq_ok.mp h
    obtain ⟨names, q, rfl, hq, rfl⟩ := ColumnExpr.of?_under hown he
    rw [String.ofList_toList] at hq
    have hcolumn : Text.aliased? column = none := by
      have hkept := Path.solid_of_of? (ColumnExpr.of?_eq_path.mp hq)
      have hone : (Text.wordsOf column.toList).length ≤ 1 := by
        rw [← Text.wordsOf_trimChars, Text.wordsOf, Text.pieces_of_forall_not hkept]
        exact List.length_filter_le _ _
      cases halias : Text.aliased? column with
      | none => rfl
      | some found =>
          obtain ⟨keyword, hthree, -⟩ := Text.aliased?_eq_some.mp halias
          simp [hthree] at hone
    refine ⟨names, q, none, rfl, ?_, rfl⟩
    simp [of?, hcolumn, hq, Except.map]

/-- No column can be qualified with a call. -/
theorem of?_call_under {table column : String} (halias : Text.aliased? table = none) {f : String}
    {p : Path} (hcall : ColumnExpr.of? table = .ok (.call f p)) (r : Reference) :
    of? (Text.trim table ++ "." ++ column) ≠ .ok r := by
  intro h
  obtain ⟨inner, hinner⟩ := ColumnExpr.closing_of_call hcall
  obtain ⟨front, last, hfront⟩ : ∃ front last, Text.pieces Text.isBlank inner = front ++ [last] :=
    ⟨_, _, (List.dropLast_append_getLast (Text.pieces_ne_nil _ inner)).symm⟩
  obtain ⟨first, rest, hcolumn⟩ := Text.exists_pieces Text.isBlank column.toList
  have hclosed : Text.pieces Text.isBlank (')' :: '.' :: column.toList) =
      (')' :: '.' :: first) :: rest :=
    Text.pieces_cons_of_neg (by decide) (Text.pieces_cons_of_neg (by decide) hcolumn)
  have htable : Text.wordsOf table.toList = front.filter (!·.isEmpty) ++ [last ++ [')']] := by
    rw [← Text.wordsOf_trimChars, hinner]
    exact Text.wordsOf_append hfront (by decide : Text.pieces Text.isBlank [')'] = [[')']]) (by simp)
  have htext : (Text.trim table ++ "." ++ column).toList = inner ++ ')' :: '.' :: column.toList := by
    simp [Text.trim, hinner]
  have hdot : Text.isBlank '.' = false := by decide
  unfold of? at h
  split at h
  · rename_i base name hfound
    obtain ⟨keyword, hthree, has⟩ := Text.aliased?_eq_some.mp hfound
    simp only [Except.bind_eq_ok] at h
    obtain ⟨e, he, -⟩ := h
    rw [htext, Text.wordsOf_append hfront hclosed (by simp)] at hthree
    cases hwords : front.filter (!·.isEmpty) with
    | nil =>
        rw [hwords, List.nil_append, List.cons.injEq] at hthree
        have hblank := ColumnExpr.blank_of_closing he hthree.1.symm '.' (by simp)
        simp [hdot] at hblank
    | cons word words =>
        rw [hwords, List.cons_append, List.cons.injEq] at hthree
        cases words with
        | nil =>
            simp only [List.nil_append, List.cons.injEq] at hthree
            have hkeyword : '.' ∈ keyword := by simp [← hthree.2.1]
            have hfold : Text.foldCase '.' ∈ keyword.map Text.foldCase :=
              List.mem_map_of_mem hkeyword
            rw [beq_iff_eq.mp has] at hfold
            exact absurd hfold (by decide)
        | cons second words =>
            simp only [List.cons_append, List.cons.injEq] at hthree
            obtain ⟨hbase, rfl, hname⟩ := hthree
            cases words with
            | nil =>
                have hsome : Text.aliased? table = some (String.ofList word, String.ofList (last ++ [')'])) := by
                  refine Text.aliased?_eq_some.mpr ⟨second, ?_, has⟩
                  simp [htable, hwords]
                simp [halias] at hsome
            | cons third words => simp at hname
  · obtain ⟨e, he, -⟩ := Except.map_eq_ok.mp h
    have hblank := ColumnExpr.blank_of_closing he htext '.' (by simp)
    simp [hdot] at hblank

/-- A qualified column is the column below the names that a query has for the table. -/
theorem of?_qualified {table column : String} {r s : Reference} (hr : of? table = .ok r)
    (hs : of? ((Text.splitAlias table).2 ++ "." ++ column) = .ok s) :
    ∃ names q label, r.ownNames = some names ∧ of? column = .ok ⟨.path q, label⟩ ∧
      s = ⟨.path (q.under names), label⟩ := by
  have htext {own : String} : own ++ "." ++ column =
      String.ofList (own.toList ++ '.' :: column.toList) := by
    apply String.toList_inj.mp
    simp
  unfold of? at hr
  split at hr
  · rename_i base name halias
    simp only [Except.bind_eq_ok, Except.pure_eq_ok] at hr
    obtain ⟨e, -, label, hlabel, rfl⟩ := hr
    have hname : Path.of? name.toList = .ok (.column [label]) := by
      rw [← Identifier.of?_eq_ok hlabel]
      exact Path.of?_name label
    rw [Text.splitAlias, halias, Option.getD_some, htext] at hs
    obtain ⟨names, q, more, hnames, hcolumn, rfl⟩ := of?_path_under hname hs
    cases hnames
    exact ⟨_, q, more, rfl, hcolumn, rfl⟩
  · rename_i halias
    obtain ⟨e, he, rfl⟩ := Except.map_eq_ok.mp hr
    rw [Text.splitAlias, halias, Option.getD_none] at hs
    cases e with
    | call f p => exact absurd hs (of?_call_under halias he s)
    | path p =>
        rw [htext] at hs
        have hown : Path.of? (Text.trim table).toList = .ok p := by
          simpa [Text.trim] using ColumnExpr.of?_eq_path.mp he
        obtain ⟨names, q, more, rfl, hcolumn, rfl⟩ := of?_path_under hown hs
        exact ⟨names, q, more, rfl, hcolumn, rfl⟩

end Reference

end TableGate
