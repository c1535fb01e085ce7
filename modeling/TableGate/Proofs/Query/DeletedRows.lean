import TableGate.Proofs.Query.SiftedJoins

/-! # Deleted rows of joined tables

The tests for soft-deleted rows keep these out of every result, but for one place: a RIGHT JOIN keeps the rows of
its table that its condition rejects, and the test is a part of that condition. -/

namespace TableGate

variable {db : Database} {k : Compiler} {scope : Scope}

/-! ## WHERE -/

namespace SelectClauses

variable {c : SelectClauses} {table : String} {body : SelectBody} {given also : List Atom}

/-- WHERE has the tests for the first table and for the tables in cross joins. -/
theorem Demands.test (h : c.Demands k scope table given also) {text : String}
    (htext : (text, .cross) ∈ c.tables table) {r : Reference} (hr : Reference.of? text = .ok r) :
    ∃ qualified test, scope.AddsTest text r qualified test ∧ ∀ a ∈ test, a ∈ also := by
  obtain ⟨search, test, crossed, -, htest, hcrossed, rfl⟩ := h.also
  rcases List.mem_cons.mp htext with hfirst | hjoin
  · cases hfirst
    exact ⟨_, test, Scope.addsTest_source hr htest, fun a ha => by simp [Option.mem_def.mp ha]⟩
  · obtain ⟨spec, hspec, hsame⟩ := List.mem_map.mp hjoin
    obtain ⟨rfl, hkind⟩ := Prod.mk.inj hsame
    have hcross : spec ∈ c.joins.filter fun j => j.joinType = .cross :=
      List.mem_filter.mpr ⟨hspec, by simpa using hkind⟩
    obtain ⟨left, hleft, hjoined⟩ := List.exists_of_mem_forall₂ (Except.mapM_eq_ok.mp hcrossed) hcross
    refine ⟨true, left, Scope.addsTest_join hr hjoined, fun a ha => ?_⟩
    exact List.mem_append_right _ (List.mem_filterMap.mpr ⟨left, hleft, ha⟩)

/-- Beside the conditions and a search, WHERE has no more than those tests. -/
theorem Demands.of_mem (h : c.Demands k scope table given also) (hsearch : c.fullText = none) {a : Atom}
    (ha : a ∈ also) :
    ∃ text, (text, .cross) ∈ c.tables table ∧ ∀ r, Reference.of? text = .ok r →
      ∃ qualified test, scope.AddsTest text r qualified test ∧ a ∈ test := by
  obtain ⟨search, test, crossed, hnone, htest, hcrossed, rfl⟩ := h.also
  rw [(search?_eq_none hnone).mpr hsearch, Option.toList_none, List.nil_append] at ha
  rcases List.mem_append.mp ha with ha | ha
  · exact ⟨table, List.mem_cons_self, fun r hr =>
      ⟨_, test, Scope.addsTest_source hr htest, Option.mem_toList.mp ha⟩⟩
  · obtain ⟨left, hleft, ha⟩ := List.mem_filterMap.mp ha
    obtain ⟨spec, hspec, hjoined⟩ := Except.exists_of_mem_mapM hcrossed hleft
    obtain ⟨hspec, hkind⟩ := List.mem_filter.mp hspec
    have hcross : (spec.table, JoinType.cross) = (spec.table, spec.joinType) := by
      rw [of_decide_eq_true hkind]
    refine ⟨spec.table, List.mem_cons_of_mem _ (List.mem_map.mpr ⟨spec, hspec, hcross.symm⟩), ?_⟩
    exact fun r hr => ⟨true, left, Scope.addsTest_join hr hjoined, ha⟩

theorem becomes (hon : ∀ spec ∈ c.joins, ∀ items, spec.on ≠ some (.conditions items))
    (h : c.body? k scope table = .ok body) :
    Reference.of? table = .ok body.source ∧
      ∃ parts : List (JoinClause × Option Atom), body.joins = parts.map (·.1) ∧
        List.Forall₂ (fun spec part => spec.Becomes scope part.1 part.2) c.joins parts := by
  simp only [body?, Except.bind_eq_ok, Except.pure_eq_ok] at h
  obtain ⟨columns, -, source, hsource, parts, hparts, given, -, search, -, test, -, groupBy, -, having, -,
    rfl⟩ := h
  have hclauses := (List.forall₂_and_left _ _).mpr ⟨hon, Except.mapM_eq_ok.mp hparts⟩
  exact ⟨hsource, parts, rfl, hclauses.imp fun spec part hpart => JoinSpec.becomes hpart.1 hpart.2⟩

end SelectClauses

/-! ## The rows of a SELECT -/

theorem SelectBody.rows?_eq_some {b : SelectBody} {rows : List Joined} :
    b.rows? db = some rows ↔ ∃ rel, b.relation? db = some rel ∧ b.filter.chain.resolves rel.sources = true ∧
      (rel.rows.filter fun j => b.filter.chain.holdsAt db j) = rows := by
  simp [rows?, Option.bind_eq_some_iff]

/-- All that WHERE has beside the conditions is found among the tables. -/
theorem Filter.resolves_also {f : Filter} {sources : List Source} (h : f.chain.resolves sources = true) :
    ∀ a ∈ f.also, a.resolves sources = true := by
  rw [Chain.resolves, atomsOf_chain, List.all_append, Bool.and_eq_true] at h
  exact List.all_eq_true.mp h.2

namespace SelectClauses

variable {c : SelectClauses} {table : String} {body : SelectBody}

theorem sifted (hon : ∀ spec ∈ c.joins, ∀ items, spec.on ≠ some (.conditions items))
    (h : c.body? k scope table = .ok body) {rel : Relation} (hrel : body.relation? db = some rel) :
    rel.Sifted db scope (c.tables table) := by
  obtain ⟨hsource, parts, hjoins, hparts⟩ := becomes hon h
  obtain ⟨s, hs, hrun⟩ := Option.bind_eq_some_iff.mp hrel
  rw [hjoins] at hrun
  exact (Relation.Sifted.single ⟨body.source, hsource, hs⟩).run hparts hrun

/-- A row that is put together for a SELECT has rows of the tables there, and none of these is deleted but in the
table of a RIGHT JOIN with nothing from the tables before. -/
theorem shows (hon : ∀ spec ∈ c.joins, ∀ items, spec.on ≠ some (.conditions items))
    (h : c.body? k scope table = .ok body) {rows : List Joined} (hrows : body.rows? db = some rows) {j : Joined}
    (hj : j ∈ rows) {n : ℕ} {s : Source} {row : Row} (hpart : j[n]? = some (s, some row)) :
    ∃ text kind, (c.tables table)[n]? = some (text, kind) ∧ db.Places text s ∧ row ∈ s.table.rows ∧
      scope.Shows text kind (j.take n) row := by
  obtain ⟨rel, hrel, hresolves, rfl⟩ := SelectBody.rows?_eq_some.mp hrows
  obtain ⟨hj, hholds⟩ := List.mem_filter.mp hj
  have hsifted := sifted hon h hrel
  have hn : n < (c.tables table).length := by
    rw [← hsifted.length_eq hj]
    exact List.getElem?_eq_some_iff.mp hpart |>.1
  obtain ⟨⟨text, kind⟩, htable⟩ : ∃ t, (c.tables table)[n]? = some t :=
    ⟨_, List.getElem?_eq_getElem hn⟩
  have hsource : rel.sources[n]? = some s := by
    rw [← hsifted.whole j hj, List.getElem?_map, hpart]
    rfl
  have hplace : db.Places text s :=
    List.forall₂_zip hsifted.placed (List.mem_of_getElem? (List.getElem?_zip_eq_some.mpr ⟨htable, hsource⟩))
  have hmem := List.mem_of_getElem? hpart
  have hrow := hsifted.stored j hj _ hmem row rfl
  refine ⟨text, kind, htable, hplace, hrow, ?_⟩
  rcases hsifted.sifted j hj n text kind s row htable hpart with rfl | hshows
  · -- the row is up to WHERE
    obtain ⟨r, hr, hs⟩ := hplace
    obtain ⟨-, hdemands, -⟩ := filter_of_body? h
    obtain ⟨qualified, test, htest, halso⟩ := hdemands.test (List.mem_of_getElem? htable) hr
    refine .inl (htest.live hs hrow hmem ?_ fun a ha => Filter.also_of_holdsAt hholds a (halso a ha))
    rw [hsifted.whole j hj]
    exact fun a ha => Filter.resolves_also hresolves a (halso a ha)
  · exact hshows

end SelectClauses

/-! ## Rows that a RIGHT JOIN lets through -/

/-- The table has the column in which its deleted rows are marked. -/
def Database.Marks (db : Database) (scope : Scope) (text : String) : Prop :=
  ∀ s, db.Places text s → ∀ column ∈ scope (Text.splitAlias text).1, column ∈ s.table.columns.map (·.text)

theorem Database.Places.unique {text : String} {s s' : Source} (h : db.Places text s) (h' : db.Places text s') :
    s = s' := by
  obtain ⟨r, hr, hs⟩ := h
  obtain ⟨r', hr', hs'⟩ := h'
  rw [hr] at hr'
  cases hr'
  rw [hs] at hs'
  exact Option.some.inj hs'

namespace Relation

variable {tables : List (String × JoinType)} {rel rel' : Relation}

/-- Any row that a RIGHT JOIN finds deleted, it keeps. -/
theorem Sifted.right (h : rel.Sifted db scope tables) {spec : JoinSpec} (hkind : spec.joinType = .right)
    {clause : JoinClause} {left : Option Atom} (hspec : spec.Becomes scope clause left)
    (hrel : rel.extend? db clause = some rel') {s : Source} (hs : db.Places spec.table s) {row : Row}
    (hrow : row ∈ s.table.rows) (hdeleted : ¬ scope.Live spec.table row) :
    rel.blank ++ [(s, some row)] ∈ rel'.rows := by
  cases hspec with
  | cross hcross _ _ =>
      rw [hkind] at hcross
      cases hcross
  | @on r compared filters test _ htable htest hcompared =>
      obtain ⟨s', hs', hresolves, rfl⟩ := extend?_on hrel
      obtain rfl := hs.unique ⟨r, htable, hs'⟩
      rw [hkind]
      refine mem_rows_join_right hrow fun j hj => ?_
      rw [Bool.eq_false_iff]
      exact fun hbelong => hdeleted (live_of_belongs h htest hs' hcompared hresolves hj hrow hbelong)

/-- LEFT JOINs continue every row. -/
theorem exists_mem_of_left {specs : List JoinSpec} {parts : List (JoinClause × Option Atom)}
    (hparts : List.Forall₂ (fun spec part => spec.Becomes scope part.1 part.2) specs parts)
    (hleft : ∀ spec ∈ specs, spec.joinType = .left) :
    ∀ {rel} {j : Joined}, j ∈ rel.rows → (parts.map (·.1)).foldlM (Relation.extend? db) rel = some rel' →
      ∃ rest, j ++ rest ∈ rel'.rows := by
  induction hparts with
  | nil =>
      intro rel j hj hrel
      cases hrel
      exact ⟨[], by simpa using hj⟩
  | @cons spec part specs parts hspec _ ih =>
      intro rel j hj hrel
      obtain ⟨hkind, hmore⟩ := List.forall_mem_cons.mp hleft
      obtain ⟨next, hnext, hrel⟩ := Option.bind_eq_some_iff.mp hrel
      obtain ⟨clause, left⟩ := part
      cases hspec with
      | cross hcross _ _ =>
          rw [hkind] at hcross
          cases hcross
      | on _ _ _ _ =>
          obtain ⟨s, -, -, rfl⟩ := extend?_on hnext
          rw [hkind] at hrel
          obtain ⟨part, hpart⟩ := exists_mem_rows_join_left hj s _
          obtain ⟨rest, hrest⟩ := ih hmore hpart hrel
          exact ⟨(s, part) :: rest, by simpa using hrest⟩

end Relation

namespace SelectClauses

variable {c : SelectClauses} {table : String} {body : SelectBody}

/-- If there are LEFT JOINs only behind a RIGHT JOIN, the tables in cross joins stand before it. -/
theorem mem_tables_before {before after : List JoinSpec} {spec : JoinSpec}
    (hjoins : c.joins = before ++ spec :: after) (hkind : spec.joinType = .right)
    (hleft : ∀ next ∈ after, next.joinType = .left) {text : String} (h : (text, .cross) ∈ c.tables table) :
    (text, JoinType.cross) ∈ (table, JoinType.cross) :: before.map fun spec => (spec.table, spec.joinType) := by
  rw [tables, hjoins, List.map_append, ← List.cons_append] at h
  refine (List.mem_append.mp h).resolve_right fun hbehind => ?_
  obtain ⟨other, hother, hsame⟩ := List.mem_map.mp hbehind
  have hcross : other.joinType = .cross := (Prod.mk.inj hsame).2
  rcases List.mem_cons.mp hother with rfl | hother
  · rw [hkind] at hcross
    cases hcross
  · rw [hleft other hother] at hcross
    cases hcross

/-- Without conditions, and with LEFT JOINs only behind it, a RIGHT JOIN brings every deleted row of its table into
the result. -/
theorem exists_mem_rows_of_right (hon : ∀ spec ∈ c.joins, ∀ items, spec.on ≠ some (.conditions items))
    (h : c.body? k scope table = .ok body) {rows : List Joined} (hrows : body.rows? db = some rows)
    (hgiven : c.conditions = []) (hsearch : c.fullText = none) {before after : List JoinSpec} {spec : JoinSpec}
    (hjoins : c.joins = before ++ spec :: after) (hkind : spec.joinType = .right)
    (hleft : ∀ next ∈ after, next.joinType = .left)
    (hmarks : ∀ text ∈ table :: before.map (·.table), db.Marks scope text) {s : Source}
    (hs : db.Places spec.table s) {row : Row} (hrow : row ∈ s.table.rows)
    (hdeleted : ¬ scope.Live spec.table row) :
    ∃ j ∈ rows, j[before.length + 1]? = some (s, some row) := by
  obtain ⟨rel, hrel, hresolves, rfl⟩ := SelectBody.rows?_eq_some.mp hrows
  have hsifted := sifted hon h hrel
  obtain ⟨hsource, parts, hclauses, hparts⟩ := becomes hon h
  -- the tables before, the RIGHT JOIN, and the tables behind it
  rw [hjoins] at hparts
  obtain ⟨hfront, hback⟩ : List.Forall₂ _ before (parts.take before.length) ∧
      List.Forall₂ _ (spec :: after) (parts.drop before.length) := by
    constructor
    · simpa using List.forall₂_take before.length hparts
    · simpa using List.forall₂_drop before.length hparts
  obtain ⟨s₀, hs₀, hrun⟩ := Option.bind_eq_some_iff.mp hrel
  rw [hclauses, ← List.take_append_drop before.length parts, List.map_append, List.foldlM_append] at hrun
  obtain ⟨first, hfirst, hrun⟩ := Option.bind_eq_some_iff.mp hrun
  have hsifted₁ := (Relation.Sifted.single ⟨body.source, hsource, hs₀⟩).run hfront hfirst
  obtain ⟨part, rest, hspec, hrest, hdrop⟩ := List.forall₂_cons_left_iff.mp hback
  rw [hdrop] at hrun
  obtain ⟨second, hsecond, hrun⟩ := Option.bind_eq_some_iff.mp hrun
  have hkept := hsifted₁.right hkind hspec hsecond hs hrow hdeleted
  obtain ⟨more, hmore⟩ := Relation.exists_mem_of_left hrest hleft hkept hrun
  have hlength : first.blank.length = before.length + 1 := by
    rw [Relation.blank, List.length_map, ← hsifted₁.placed.length_eq]
    simp
  refine ⟨_, List.mem_filter.mpr ⟨hmore, ?_⟩, ?_⟩
  · -- WHERE tests tables before only, of which there is no row
    obtain ⟨hchain, hdemands, -⟩ := filter_of_body? h
    refine Filter.holdsAt_of_also ((Condition.chain_eq_nil hchain).mpr hgiven) fun a ha => ?_
    obtain ⟨text, htext, htests⟩ := hdemands.of_mem hsearch ha
    have hbefore := mem_tables_before hjoins hkind hleft htext
    obtain ⟨s', hs', r, hr, hplace⟩ := List.exists_of_mem_forall₂ hsifted₁.placed hbefore
    obtain ⟨qualified, test, htest, ha'⟩ := htests r hr
    have hname : text ∈ table :: before.map (·.table) := by
      simpa [Function.comp_def] using List.mem_map_of_mem (f := Prod.fst) hbefore
    refine htest.holds_of_missing hplace (hmarks text hname s' ⟨r, hr, hplace⟩) ?_ ha' ?_
    · exact List.mem_append_left _ (List.mem_append_left _ (List.mem_map_of_mem hs'))
    · rw [hsifted.whole _ hmore]
      exact Filter.resolves_also hresolves a ha
  · rw [List.append_assoc, List.getElem?_append_right hlength.le, hlength, Nat.sub_self]
    rfl

end SelectClauses

theorem QuerySpec.body?_of_select? {c : SelectClauses} {table : String} {body : SelectBody}
    {order : List OrderTerm} {limit offset : Option UInt64}
    (h : (QuerySpec.mk c .none .nil).select? k scope table = .ok (.mk .nil body [] order limit offset)) :
    c.body? k (c.scope scope) table = .ok body := by
  simp only [QuerySpec.select?, QuerySpec.cteClauses?, QuerySpec.unionMembers?, Except.bind_eq_ok,
    Except.pure_eq_ok, Except.ok.injEq] at h
  obtain ⟨_, rfl, body', hbody, _, rfl, order', -, hsame⟩ := h
  cases hsame
  exact hbody

/-- Of a SELECT without common table expressions and united queries, every row is put together from rows of its
tables that are not deleted, but for rows that a RIGHT JOIN keeps with nothing from the tables before. These it
does keep: without conditions, and with LEFT JOINs only behind it, every deleted row of its table is seen. -/
theorem Compiler.selectScoped_deleted {outer : Scope} {table : String} {c : SelectClauses} {stmt : Statement}
    (hon : ∀ spec ∈ c.joins, ∀ items, spec.on ≠ some (.conditions items))
    (h : k.selectScoped table (.mk c .none .nil) outer = .ok stmt) :
    ∃ body order, (QuerySpec.mk c .none .nil).select? k outer table =
        .ok (.mk .nil body [] order c.limit c.offset) ∧
      stmt = ((Select.mk .nil body [] order c.limit c.offset).template k.dialect).statement k.dialect ∧
      ∀ db rows, body.rows? db = some rows →
        (∀ j ∈ rows, ∀ n s row, j[n]? = some (s, some row) →
          ∃ text kind, (c.tables table)[n]? = some (text, kind) ∧ db.Places text s ∧ row ∈ s.table.rows ∧
            ((c.scope outer).Live text row ∨ kind = .right ∧ ∀ part ∈ j.take n, part.2 = none)) ∧
        (c.conditions = [] → c.fullText = none →
          ∀ before spec after, c.joins = before ++ spec :: after → spec.joinType = .right →
            (∀ next ∈ after, next.joinType = .left) →
            (∀ text ∈ table :: before.map (·.table), db.Marks (c.scope outer) text) →
            ∀ s, db.Places spec.table s → ∀ row ∈ s.table.rows, ¬ (c.scope outer).Live spec.table row →
              ∃ j ∈ rows, j[before.length + 1]? = some (s, some row)) := by
  obtain ⟨s, hs, rfl⟩ := Compiler.selectScoped_eq_ok.mp h
  have hselect := hs
  simp only [QuerySpec.select?, QuerySpec.cteClauses?, QuerySpec.unionMembers?, Except.bind_eq_ok,
    Except.pure_eq_ok, Except.ok.injEq] at hs
  obtain ⟨_, rfl, body, hbody, _, rfl, order, -, rfl⟩ := hs
  refine ⟨body, order, hselect, rfl, fun db rows hrows => ⟨?_, ?_⟩⟩
  · exact fun j hj n s row hpart => SelectClauses.shows hon hbody hrows hj hpart
  · intro hgiven hsearch before spec after hjoins hkind hleft hmarks s hs row hrow hdeleted
    exact SelectClauses.exists_mem_rows_of_right hon hbody hrows hgiven hsearch hjoins hkind hleft hmarks hs
      hrow hdeleted

/-- A user with two orders, of which one is deleted, and an item of either order. -/
def Database.shop : Database where
  table? names := match names.map (·.text) with
    | ["users"] => some
        { columns := [⟨"id", by decide⟩, ⟨"deleted_at", by decide⟩]
          rows := [.ofList [("id", .int 7)]] }
    | ["orders"] => some
        { columns := [⟨"id", by decide⟩, ⟨"user_id", by decide⟩, ⟨"deleted_at", by decide⟩]
          rows := [.ofList [("id", .int 1), ("user_id", .int 7)],
            .ofList [("id", .int 2), ("user_id", .int 7), ("deleted_at", .text "2024-05-01")]] }
    | ["items"] => some
        { columns := [⟨"id", by decide⟩, ⟨"order_id", by decide⟩, ⟨"deleted_at", by decide⟩]
          rows := [.ofList [("id", .int 3), ("order_id", .int 1)], .ofList [("id", .int 4), ("order_id", .int 2)]] }
    | _ => none
  compare _ op x y := op = .eq && x.equals y
  search _ _ _ := .no

/-- Behind the RIGHT JOIN there is a LEFT JOIN, and all three tables keep deleted rows. -/
theorem Compiler.selectScoped_deleted_shop :
    let scope : Scope := fun _ => some "deleted_at"
    let join := JoinSpec.ofPair .right "orders as o" "u.id" "o.user_id"
    let q := (QuerySpec.empty.join join).join (.ofPair .left "items" "o.id" "items.order_id")
    let k : Compiler := ⟨.sqlite, .guarded⟩
    ∃ body order rows, q.select? k scope "users as u" = .ok (.mk .nil body [] order none none) ∧
      body.rows? .shop = some rows ∧
      (∀ j ∈ rows, ∀ s row, j[0]? = some (s, some row) → scope.Live "users as u" row) ∧
      (∀ j ∈ rows, ∀ s row, j[2]? = some (s, some row) → scope.Live "items" row) ∧
      ∃ j ∈ rows, ∃ s row, j[1]? = some (s, some row) ∧ ¬ scope.Live "orders as o" row := by
  intro scope join q k
  have hok : (k.selectScoped "users as u" q scope).toOption.any (fun _ => true) = true := by
    decide +kernel
  have hanswer : (q.clauses.body? k (q.clauses.scope scope) "users as u").toOption.any (fun body =>
      (body.rows? .shop).any fun _ => true) = true := by
    decide +kernel
  have hmarked : (Reference.of? "users as u").toOption.any (fun r => (Database.shop.source? r).all fun s =>
      s.table.columns.any (·.text = "deleted_at")) = true := by
    decide +kernel
  have hdeleted : (Reference.of? "orders as o").toOption.any (fun r => (Database.shop.source? r).any fun s =>
      s.table.rows.any fun row => !decide (scope.Live "orders as o" row)) = true := by
    decide +kernel
  obtain ⟨stmt, hstmt, -⟩ := Except.exists_of_any hok
  obtain ⟨body, order, hselect, -, hseen⟩ := Compiler.selectScoped_deleted
    (by simp [join, JoinSpec.ofPair])
    hstmt
  obtain ⟨same, hsame, hanswer⟩ := Except.exists_of_any hanswer
  obtain rfl := Except.ok.inj ((QuerySpec.body?_of_select? hselect).symm.trans hsame)
  obtain ⟨rows, hrows, -⟩ := (Option.any_eq_true _ _).mp hanswer
  obtain ⟨hlive, hkept⟩ := hseen .shop rows hrows
  refine ⟨body, order, rows, hselect, hrows, ?_, ?_, ?_⟩
  · intro j hj s row hpart
    obtain ⟨text, kind, htable, -, -, hshows⟩ := hlive j hj 0 s row hpart
    cases htable
    exact hshows.resolve_right fun hright => by cases hright.1
  · intro j hj s row hpart
    obtain ⟨text, kind, htable, -, -, hshows⟩ := hlive j hj 2 s row hpart
    cases htable
    exact hshows.resolve_right fun hright => by cases hright.1
  · obtain ⟨r, hr, hdeleted⟩ := Except.exists_of_any hdeleted
    obtain ⟨s, hs, hdeleted⟩ := (Option.any_eq_true _ _).mp hdeleted
    obtain ⟨row, hrow, hdeleted⟩ := List.any_eq_true.mp hdeleted
    have hdead : ¬ scope.Live "orders as o" row := by simpa using hdeleted
    obtain ⟨j, hj, hpart⟩ := hkept rfl rfl [] join _ rfl rfl (by simp [JoinSpec.ofPair])
      (by
        intro text htext s hs column hcolumn
        obtain ⟨r, hr, hs⟩ := hs
        cases List.mem_singleton.mp htext
        cases hcolumn
        obtain ⟨r', hr', hmarked⟩ := Except.exists_of_any hmarked
        obtain rfl := Except.ok.inj (hr.symm.trans hr')
        rw [hs] at hmarked
        simpa using hmarked)
      s ⟨r, hr, hs⟩ row hrow hdead
    exact ⟨j, hj, s, row, hpart, hdead⟩

/-- The deleted order of a user is a row of the RIGHT JOIN, without the user. -/
theorem Compiler.selectScoped_right_deleted :
    let scope : Scope := fun table => if table = "orders" then some "deleted_at" else none
    let c := (QuerySpec.empty.join (.ofPair .right "orders" "users.id" "orders.user_id")).clauses
    let k : Compiler := ⟨.sqlite, .guarded⟩
    let sql := "SELECT * FROM \"users\" RIGHT JOIN \"orders\"" ++
      " ON \"users\".\"id\" = \"orders\".\"user_id\" AND \"orders\".\"deleted_at\" IS NULL"
    ((k.selectScoped "users" (.mk c .none .nil) scope).toOption.map (·.sql) = some sql) ∧
      ∃ body rows, c.body? k scope "users" = .ok body ∧ body.rows? .shop = some rows ∧
        ∃ j ∈ rows, ∃ s row, j[1]? = some (s, some row) ∧ ¬ scope.Live "orders" row := by
  intro scope c k sql
  refine ⟨by decide +kernel, ?_⟩
  have hshown : (c.body? k scope "users").toOption.any (fun body => (body.rows? .shop).any fun rows =>
      rows.any fun j => j[1]?.any fun part => part.2.any fun row => !decide (scope.Live "orders" row)) = true := by
    decide +kernel
  obtain ⟨body, hbody, hshown⟩ := Except.exists_of_any hshown
  obtain ⟨rows, hrows, hshown⟩ := (Option.any_eq_true _ _).mp hshown
  obtain ⟨j, hj, hshown⟩ := List.any_eq_true.mp hshown
  obtain ⟨⟨s, part⟩, hpart, hshown⟩ := (Option.any_eq_true _ _).mp hshown
  obtain ⟨row, rfl, hdeleted⟩ := (Option.any_eq_true _ _).mp hshown
  exact ⟨body, rows, hbody, hrows, j, hj, s, row, hpart, by simpa using hdeleted⟩

end TableGate
