import TableGate.Proofs.Json.Fields
import TableGate.Query.SpecJson

/-! # Queries that were written

The conditions of a query carry the values that it compares with. Reading what was written of a query, or of a part
of one, settles these values. What the query asks for stays the same: where a value may be one of several things, it
is read as the one that was written. -/

namespace TableGate

open Carrier

/-! ## Parts without values -/

theorem Connector.ofJson?_toJson (c : Connector) : ofJson? c.toJson = some c := by
  cases c <;> rfl

theorem JoinType.ofJson?_name (t : JoinType) : ofJson? (.text t.name) = some t := by
  cases t <;> rfl

theorem FullTextMode.ofName?_name (m : FullTextMode) : ofName? m.name = some m := by
  cases m <;> rfl

theorem SelectItem.ofJson?_toJson (item : SelectItem) : ofJson? item.toJson = some item := by
  cases item with
  | column text => rfl
  | count argument label => cases label <;> rfl
  | aggregate function column label => cases function <;> cases label <;> rfl
  | raw fragment => rfl

theorem OrderBy.ofJson?_toJson (order : OrderBy) : ofJson? order.toJson = some order := by
  cases order with
  | text s => rfl
  | spec column direction => cases direction <;> rfl

theorem FullTextSpec.ofJson?_toJson (spec : FullTextSpec) : ofJson? spec.toJson = some spec := by
  simp [ofJson?, toJson, Fields.of?, Fields.required, Fields.orDefault, Fields.find?, Value.asTexts?_ofTexts,
    Value.asText?, Value.asName?, FullTextMode.ofName?_name]

theorem JsonPathSpec.ofJson?_toJson (spec : JsonPathSpec) : ofJson? spec.toJson = some spec := by
  obtain ⟨column, path, label⟩ := spec
  cases label <;> rfl

/-- A list of things without values is read item by item. -/
theorem asList?_of_forall {α : Type} {read : Value → Option α} {write : α → Value}
    (h : ∀ x, read (write x) = some x) (xs : List α) : Value.asList? read (.array (xs.map write)) = some xs := by
  rw [Value.asList?, List.mapM_map]
  induction xs with
  | nil => rfl
  | cons x xs ih => rw [List.mapM_cons, ih, Function.comp, h]; rfl

theorem WindowSpec.ofJson?_toJson (spec : WindowSpec) : ofJson? spec.toJson = some spec := by
  simp [ofJson?, toJson, Fields.of?, Fields.required, Fields.orDefault, Fields.find?, Value.asTexts?_ofTexts,
    Value.asText?, asList?_of_forall OrderBy.ofJson?_toJson]

/-! ## Conditions -/

instance : Carrier ConditionNode where
  values n := [n.value]
  replace? f n := (f n.value).map fun value => { n with value }
  replace?_eq_self_iff f n := by
    obtain ⟨column, operator, value, boolean⟩ := n
    simp

namespace Condition

mutual
def values : Condition → List Value
  | .node n => Carrier.values n
  | .group items _ => valuesOfAll items
def valuesOfAll : List Condition → List Value
  | [] => []
  | c :: cs => c.values ++ valuesOfAll cs
end

mutual
/-- The condition with its values replaced. -/
def replace? (f : Value → Option Value) : Condition → Option Condition
  | .node n => (Carrier.replace? f n).map .node
  | .group items boolean => (replaceAll? f items).map (.group · boolean)
def replaceAll? (f : Value → Option Value) : List Condition → Option (List Condition)
  | [] => some []
  | c :: cs => do return (← c.replace? f) :: (← replaceAll? f cs)
end

mutual

theorem replace?_eq_self_iff (f : Value → Option Value) :
    ∀ c : Condition, c.replace? f = some c ↔ ∀ v ∈ c.values, f v = some v
  | .node n => by simp [replace?, values, ← Carrier.replace?_eq_self_iff]
  | .group items boolean => by simp [replace?, values, ← replaceAll?_eq_self_iff f items]

theorem replaceAll?_eq_self_iff (f : Value → Option Value) :
    ∀ items : List Condition, replaceAll? f items = some items ↔ ∀ v ∈ valuesOfAll items, f v = some v
  | [] => by simp [replaceAll?, valuesOfAll]
  | c :: cs => by
      simp only [replaceAll?, valuesOfAll, List.forall_mem_append, ← replace?_eq_self_iff f c,
        ← replaceAll?_eq_self_iff f cs]
      simp [Option.bind_eq_some_iff]

end

instance : Carrier Condition := ⟨values, replace?, replace?_eq_self_iff⟩

end Condition

theorem ConditionNode.ofJson?_toJson (n : ConditionNode) : ofJson? n.toJson = replace? Value.settled? n := by
  simp only [ofJson?, toJson, Fields.of?, Fields.required, Fields.orDefault, Fields.find?, replace?]
  simp [Value.asText?, Value.asAny?, Connector.ofJson?_toJson]
  cases n.value.settled? <;> rfl

namespace Condition

/-- A comparison has no conditions in it, so it is not read as a group. -/
theorem readWithin_node (n : ConditionNode) (depth : ℕ) :
    readWithin (depth + 1) n.toJson = (ConditionNode.ofJson? n.toJson).map .node := by
  simp [readWithin, ConditionNode.toJson, Fields.of?, Fields.required, Fields.find?]

theorem readWithin_group (items : List Condition) (boolean : Connector) (depth : ℕ) :
    readWithin (depth + 1) (toJson (.group items boolean)) =
      ((listToJson items).mapM (readWithin depth)).map (.group · boolean) := by
  have hnode : ConditionNode.ofJson? (toJson (.group items boolean)) = none := by
    simp [ConditionNode.ofJson?, toJson, Fields.of?, Fields.required, Fields.find?]
  rw [readWithin, hnode, toJson]
  simp only [Fields.of?, Fields.required, Fields.orDefault, Fields.find?]
  simp [Value.asList?, Connector.ofJson?_toJson]
  cases (listToJson items).mapM (readWithin depth) <;> rfl

mutual

theorem readWithin_toJson : ∀ (c : Condition) (depth : ℕ), c.toJson.depth ≤ depth →
    readWithin depth c.toJson = c.replace? Value.settled?
  | .node n, 0, h => by simp [toJson, ConditionNode.toJson, Value.depth] at h
  | .node n, depth + 1, _ => by
      rw [toJson, readWithin_node, ConditionNode.ofJson?_toJson, replace?]
  | .group items boolean, 0, h => by simp [toJson, Value.depth] at h
  | .group items boolean, depth + 1, h => by
      rw [readWithin_group, mapM_readWithin items depth, replace?]
      simp [toJson, Value.depth, Value.depthOfEntries] at h
      omega

theorem mapM_readWithin : ∀ (items : List Condition) (depth : ℕ), Value.depthOfItems (listToJson items) ≤ depth →
    (listToJson items).mapM (readWithin depth) = replaceAll? Value.settled? items
  | [], _, _ => rfl
  | c :: cs, depth, h => by
      rw [listToJson, Value.depthOfItems, Nat.max_le] at h
      rw [listToJson, List.mapM_cons, readWithin_toJson c depth h.1, mapM_readWithin cs depth h.2, replaceAll?]

end

theorem ofJson?_toJson (c : Condition) : ofJson? c.toJson = Carrier.replace? Value.settled? c :=
  readWithin_toJson c _ (Nat.le_refl _)

theorem listToJson_eq (items : List Condition) : listToJson items = items.map toJson := by
  induction items with
  | nil => rfl
  | cons c cs ih => rw [listToJson, ih, List.map_cons]

theorem listOfJson?_listToJson (items : List Condition) :
    listOfJson? (.array (listToJson items)) = Carrier.replace? Value.settled? items := by
  rw [listToJson_eq, listOfJson?, Value.asList?_written fun c _ => ofJson?_toJson c]

theorem toJson_ne_text (c : Condition) (s : String) : c.toJson ≠ .text s := by
  cases c <;> exact fun h => nomatch h

end Condition

/-! ## Joins and conditions on groups -/

instance : Carrier JoinOn where
  values
    | .pair _ _ => []
    | .conditions items => values items
  replace? f
    | .pair left right => some (.pair left right)
    | .conditions items => (replace? f items).map .conditions
  replace?_eq_self_iff f on := by
    cases on with
    | pair left right => simp
    | conditions items => simpa using replace?_eq_self_iff f items

/-- A list of conditions is not read as a pair of columns, even if there are two of them. -/
theorem JoinOn.ofJson?_toJson (on : JoinOn) : ofJson? on.toJson = replace? Value.settled? on := by
  cases on with
  | pair left right => rfl
  | conditions items =>
      rw [toJson, ofJson?, Condition.listOfJson?_listToJson]
      · rfl
      · intro left right hpair
        rw [Value.array.injEq, Condition.listToJson_eq] at hpair
        cases items with
        | nil => cases hpair
        | cons c cs => exact absurd (List.cons.inj hpair).1 (c.toJson_ne_text left)

instance : Carrier JoinSpec where
  values j := values j.on ++ values j.filters
  replace? f j := do
    return { j with on := ← replace? f j.on, filters := ← replace? f j.filters }
  replace?_eq_self_iff f j := by
    obtain ⟨table, joinType, on, filters⟩ := j
    rw [List.forall_mem_append, ← replace?_eq_self_iff, ← replace?_eq_self_iff]
    simp [Option.bind_eq_some_iff]

theorem JoinOn.isNull_toJson (on : JoinOn) : on.toJson.isNull = false := by
  cases on <;> rfl

theorem JoinSpec.ofJson?_toJson (j : JoinSpec) : ofJson? j.toJson = replace? Value.settled? j := by
  obtain ⟨table, joinType, on, filters⟩ := j
  simp only [ofJson?, toJson, Fields.of?, Option.bind_eq_bind, Option.bind_some]
  rw [Fields.optional_written on JoinOn.isNull_toJson JoinOn.ofJson?_toJson (by cases on <;> rfl),
    Fields.required_of_find? (by rfl), Fields.orDefault_of_find? (by rfl), Fields.orDefault_of_find? (by rfl)]
  rw [JoinType.ofJson?_name, Condition.listOfJson?_listToJson]
  rfl

instance : Carrier Having where
  values
    | .raw _ => []
    | .conditions items => values items
  replace? f
    | .raw fragment => some (.raw fragment)
    | .conditions items => (replace? f items).map .conditions
  replace?_eq_self_iff f having := by
    cases having with
    | raw fragment => simp
    | conditions items => simpa using replace?_eq_self_iff f items

theorem Having.isNull_toJson (having : Having) : having.toJson.isNull = false := by
  cases having <;> rfl

theorem Having.ofJson?_toJson (having : Having) : ofJson? having.toJson = replace? Value.settled? having := by
  cases having with
  | raw fragment => rfl
  | conditions items =>
      rw [toJson, ofJson?, Condition.listOfJson?_listToJson]
      rfl

/-! ## Queries -/

instance : Carrier SelectClauses where
  values c := values c.conditions ++ values c.joins ++ values c.having
  replace? f c := do
    return { c with
      conditions := ← replace? f c.conditions
      joins := ← replace? f c.joins
      having := ← replace? f c.having }
  replace?_eq_self_iff f c := by
    rw [List.forall_mem_append, List.forall_mem_append, ← replace?_eq_self_iff, ← replace?_eq_self_iff,
      ← replace?_eq_self_iff]
    cases c
    simp [Option.bind_eq_some_iff, and_assoc]

namespace QuerySpec

mutual
def values : QuerySpec → List Value
  | .mk clauses union ctes => Carrier.values clauses ++ (valuesOfUnion union ++ valuesOfCtes ctes)
def valuesOfUnion : UnionSpec → List Value
  | .none => []
  | .member _ query _ => query.values
def valuesOfCtes : CteSpecs → List Value
  | .nil => []
  | .raw _ _ rest => valuesOfCtes rest
  | .query _ _ query rest => query.values ++ valuesOfCtes rest
end

mutual
/-- The query with its values replaced. -/
def replace? (f : Value → Option Value) : QuerySpec → Option QuerySpec
  | .mk clauses union ctes => do
    return .mk (← Carrier.replace? f clauses) (← replaceInUnion? f union) (← replaceInCtes? f ctes)
def replaceInUnion? (f : Value → Option Value) : UnionSpec → Option UnionSpec
  | .none => some .none
  | .member table query all => do return .member table (← query.replace? f) all
def replaceInCtes? (f : Value → Option Value) : CteSpecs → Option CteSpecs
  | .nil => some .nil
  | .raw name fragment rest => do return .raw name fragment (← replaceInCtes? f rest)
  | .query name table query rest => do return .query name table (← query.replace? f) (← replaceInCtes? f rest)
end

mutual

theorem replace?_eq_self_iff (f : Value → Option Value) :
    ∀ q : QuerySpec, q.replace? f = some q ↔ ∀ v ∈ q.values, f v = some v
  | .mk clauses union ctes => by
      simp only [values, List.forall_mem_append, ← replaceInUnion?_eq_self_iff f union,
        ← replaceInCtes?_eq_self_iff f ctes, ← Carrier.replace?_eq_self_iff]
      simp [replace?, Option.bind_eq_some_iff]

theorem replaceInUnion?_eq_self_iff (f : Value → Option Value) :
    ∀ union : UnionSpec, replaceInUnion? f union = some union ↔ ∀ v ∈ valuesOfUnion union, f v = some v
  | .none => by simp [replaceInUnion?, valuesOfUnion]
  | .member table query all => by
      simp only [valuesOfUnion, ← replace?_eq_self_iff f query]
      simp [replaceInUnion?, Option.bind_eq_some_iff]

theorem replaceInCtes?_eq_self_iff (f : Value → Option Value) :
    ∀ ctes : CteSpecs, replaceInCtes? f ctes = some ctes ↔ ∀ v ∈ valuesOfCtes ctes, f v = some v
  | .nil => by simp [replaceInCtes?, valuesOfCtes]
  | .raw name fragment rest => by
      simp only [valuesOfCtes, ← replaceInCtes?_eq_self_iff f rest]
      simp [replaceInCtes?, Option.bind_eq_some_iff]
  | .query name table query rest => by
      simp only [valuesOfCtes, List.forall_mem_append, ← replace?_eq_self_iff f query,
        ← replaceInCtes?_eq_self_iff f rest]
      simp [replaceInCtes?, Option.bind_eq_some_iff]

end

instance : Carrier QuerySpec := ⟨values, replace?, replace?_eq_self_iff⟩

theorem clausesOf?_written {c : SelectClauses} {union ctes : Value} {fields : Fields}
    (h : Fields.of? 15 (fieldsToJson c union ctes) = some fields) :
    clausesOf? fields = Carrier.replace? Value.settled? c := by
  obtain ⟨select, conditions, joins, groupBy, having, orderBy, limit, offset, distinct, fullText, window, json,
    withTrashed⟩ := c
  cases h
  have hselect := asList?_of_forall SelectItem.ofJson?_toJson select
  have horder := asList?_of_forall OrderBy.ofJson?_toJson orderBy
  have hwindow := asList?_of_forall WindowSpec.ofJson?_toJson window
  have hjson := asList?_of_forall JsonPathSpec.ofJson?_toJson json
  have hjoins := Value.asList?_written (fun j (_ : j ∈ joins) => JoinSpec.ofJson?_toJson j)
  rw [clausesOf?,
    Fields.optional_written having Having.isNull_toJson Having.ofJson?_toJson (by cases having <;> rfl),
    Fields.optional_same limit (fun _ => rfl) Value.asUInt64?_toNat (by cases limit <;> rfl),
    Fields.optional_same offset (fun _ => rfl) Value.asUInt64?_toNat (by cases offset <;> rfl),
    Fields.optional_same fullText (fun _ => rfl) FullTextSpec.ofJson?_toJson (by cases fullText <;> rfl)]
  simp only [Fields.orDefault, Fields.find?]
  simp [hselect, horder, hwindow, hjson, hjoins, Condition.listOfJson?_listToJson, Value.asTexts?_ofTexts,
    Value.asBool?]
  rfl

/-- A query in JSON has its fields under their names. -/
theorem fields_toJson (c : SelectClauses) (union : UnionSpec) (ctes : CteSpecs) :
    ∃ fields, Fields.of? 15 (toJson (.mk c union ctes)) = some fields ∧
      clausesOf? fields = Carrier.replace? Value.settled? c ∧
      fields.find? 9 ["union"] = some (some (unionToJson union)) ∧
      fields.find? 10 ["with"] = some (some (.array (ctesToJson ctes))) :=
  ⟨_, rfl, clausesOf?_written rfl, rfl, rfl⟩

/-- What a query holds is nested less deep than the query. -/
theorem depth_toJson (c : SelectClauses) (union : UnionSpec) (ctes : CteSpecs) :
    (unionToJson union).depth < (toJson (.mk c union ctes)).depth ∧
      Value.depthOfItems (ctesToJson ctes) < (toJson (.mk c union ctes)).depth := by
  rw [toJson, fieldsToJson, Value.depth]
  constructor
  · exact Nat.lt_succ_of_le (Value.depth_le_of_mem "union" (by simp))
  · exact Nat.lt_succ_of_lt (Value.depth_le_of_mem "with" (v := .array (ctesToJson ctes)) (by simp))

mutual

theorem readWithin_toJson : ∀ (q : QuerySpec) (depth : ℕ), q.toJson.depth ≤ depth →
    readWithin depth q.toJson = q.replace? Value.settled?
  | .mk c union ctes, 0, h => by simp [toJson, fieldsToJson, Value.depth] at h
  | .mk c union ctes, depth + 1, h => by
      obtain ⟨fields, hfields, hclauses, hunion, hctes⟩ := fields_toJson c union ctes
      have hdepth := depth_toJson c union ctes
      rw [readWithin, hfields, Option.bind_eq_bind, Option.bind_some, hclauses, Fields.orDefault_of_find? hunion,
        Fields.orDefault_of_find? hctes, unionOf?_written union depth (by omega), ctesOf?,
        ctesOfItems?_written ctes depth (by omega), replace?]

theorem unionOf?_written : ∀ (union : UnionSpec) (depth : ℕ), (unionToJson union).depth ≤ depth →
    unionOf? (readWithin depth) (unionToJson union) = replaceInUnion? Value.settled? union
  | .none, _, _ => rfl
  | .member table query all, depth, h => by
      have hquery := readWithin_toJson query depth (by
        simp [unionToJson, Value.depth, Value.depthOfEntries] at h
        omega)
      simp only [unionToJson, unionOf?, Fields.of?, Fields.required, Fields.orDefault, Fields.find?]
      simp [hquery, replaceInUnion?, Value.asText?, Value.asBool?]

theorem ctesOfItems?_written : ∀ (ctes : CteSpecs) (depth : ℕ), Value.depthOfItems (ctesToJson ctes) ≤ depth →
    ctesOfItems? (readWithin depth) (ctesToJson ctes) = replaceInCtes? Value.settled? ctes
  | .nil, _, _ => rfl
  | .raw name fragment rest, depth, h => by
      rw [ctesToJson, Value.depthOfItems, Nat.max_le] at h
      rw [ctesToJson, ctesOfItems?, ctesOfItems?_written rest depth h.2, replaceInCtes?]
      rfl
  | .query name table query rest, depth, h => by
      rw [ctesToJson, Value.depthOfItems, Nat.max_le] at h
      have hquery := readWithin_toJson query depth (by
        have := h.1
        simp [Value.depth, Value.depthOfEntries] at this
        omega)
      rw [ctesToJson, ctesOfItems?, ctesOfItems?_written rest depth h.2, replaceInCtes?]
      simp only [Fields.of?, Fields.required, Fields.find?, cteBodyOf?, Fields.ofObject?]
      simp [hquery, Value.asText?, Option.bind_assoc]

end

theorem ofJson?_toJson (q : QuerySpec) : ofJson? q.toJson = Carrier.replace? Value.settled? q :=
  readWithin_toJson q _ (Nat.le_refl _)

end QuerySpec

end TableGate
