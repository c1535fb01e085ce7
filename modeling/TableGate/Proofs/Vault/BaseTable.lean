import TableGate.Proofs.Sql.Reference
import TableGate.Vault.Search

/-! # The table that a text names

The table that a text names has no blanks around its name and no alias, so it names itself, and it is what
the reference of the text points to. -/

namespace TableGate

namespace Text

/-- The word in front of an alias stands alone. -/
theorem solid_of_aliased? {s base name : String} (h : aliased? s = some (base, name)) :
    Solid base.toList ∧ base.toList ≠ [] := by
  obtain ⟨keyword, hwords, -⟩ := aliased?_eq_some.mp h
  have hmem : base.toList ∈ wordsOf s.toList := by simp [hwords]
  exact ⟨solid_of_mem_wordsOf hmem, by simpa using (List.mem_filter.mp hmem).2⟩

theorem aliased?_of_solid {s : String} (h : Solid s.toList) (hne : s.toList ≠ []) :
    aliased? s = none := by
  rw [aliased?, wordsOf_of_solid h hne]

theorem aliased?_trim (s : String) : aliased? (trim s) = aliased? s :=
  aliased?_congr (by rw [trim, String.toList_ofList, wordsOf_trimChars])

@[simp] theorem trim_trim (s : String) : trim (trim s) = trim s := by
  rw [trim, trim, String.toList_ofList, trimChars_trimChars]

theorem trim_of_solid {s : String} (h : Solid s.toList) : trim s = s := by
  rw [trim, trimChars_of_solid h, String.ofList_toList]

end Text

namespace Vault

theorem baseTable_of_aliased? {table base name : String} (h : Text.aliased? table = some (base, name)) :
    baseTable table = base := by
  rw [baseTable, Text.splitAlias, h, Option.getD_some]

theorem baseTable_of_unaliased {table : String} (h : Text.aliased? table = none) :
    baseTable table = Text.trim table := by
  rw [baseTable, Text.splitAlias, h, Option.getD_none]

/-- The name of a table names that table. -/
@[simp] theorem baseTable_baseTable (table : String) : baseTable (baseTable table) = baseTable table := by
  cases h : Text.aliased? table with
  | none =>
      have htrim : Text.aliased? (Text.trim table) = none := by rw [Text.aliased?_trim, h]
      rw [baseTable_of_unaliased h, baseTable_of_unaliased htrim, Text.trim_trim]
  | some found =>
      obtain ⟨base, name⟩ := found
      obtain ⟨hsolid, hne⟩ := Text.solid_of_aliased? h
      rw [baseTable_of_aliased? h, baseTable_of_unaliased (Text.aliased?_of_solid hsolid hne),
        Text.trim_of_solid hsolid]

end Vault

namespace Reference

/-- The reference of a text points to the table that the text names. -/
theorem of?_baseTable {table : String} {r : Reference} (h : of? table = .ok r) :
    ColumnExpr.of? (Vault.baseTable table) = .ok r.expression := by
  unfold of? at h
  split at h
  · rename_i base name halias
    simp only [Except.bind_eq_ok, Except.pure_eq_ok] at h
    obtain ⟨e, he, label, -, rfl⟩ := h
    rw [Vault.baseTable_of_aliased? halias]
    exact he
  · rename_i halias
    obtain ⟨e, he, rfl⟩ := Except.map_eq_ok.mp h
    rw [Vault.baseTable_of_unaliased halias, ← he, ColumnExpr.of?, ColumnExpr.of?,
      Text.aggregateCall?, Text.aggregateCall?, Text.trim, String.toList_ofList,
      Text.trimChars_trimChars]

/-- An accepted text is the name of its table if and only if it has neither an alias nor blanks around
it. -/
theorem baseTable_eq_self {table : String} {r : Reference} (h : of? table = .ok r) :
    Vault.baseTable table = table ↔ r.label = none ∧ Text.trim table = table := by
  unfold of? at h
  split at h
  · rename_i base name halias
    simp only [Except.bind_eq_ok, Except.pure_eq_ok] at h
    obtain ⟨e, -, label, -, rfl⟩ := h
    obtain ⟨hsolid, hne⟩ := Text.solid_of_aliased? halias
    constructor
    · intro hself
      rw [Vault.baseTable_of_aliased? halias] at hself
      rw [hself] at hsolid hne
      rw [Text.aliased?_of_solid hsolid hne] at halias
      cases halias
    · rintro ⟨hlabel, -⟩
      cases hlabel
  · rename_i halias
    obtain ⟨e, -, rfl⟩ := Except.map_eq_ok.mp h
    rw [Vault.baseTable_of_unaliased halias]
    exact ⟨fun htrim => ⟨rfl, htrim⟩, fun hself => hself.2⟩

end Reference

end TableGate
