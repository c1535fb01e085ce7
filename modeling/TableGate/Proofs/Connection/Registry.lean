import TableGate.Connection.Registry
import TableGate.Proofs.Failure
import TableGate.Proofs.NameMap

/-! # What a registry finds

A registry finds each connection under its own name. What has been found is kept only so that it need not be
made again: the same connections are found with it and without it. -/

namespace TableGate.Registry

variable {r : Registry} {name : String} {c : Connection}

/-- Every connection that is found has the name that it is found under. -/
def Named (r : Registry) : Prop :=
  ∀ name c, r.find? name = .ok c → c.name = name

theorem find?_eq_ok : r.find? name = .ok c ↔
    (r.fixed.get? name <|> r.found.get? name <|> r.tenant? name) = some c := by
  rw [find?]
  split
  · rename_i c' hfound
    rw [hfound, Except.ok.injEq, Option.some.injEq]
  · rename_i hnone
    rw [hnone]
    simp only [reduceCtorEq]

theorem name_of_connection? {settings : ConnectionSettings} {limit : UInt32}
    (h : connection? name settings limit = .ok c) : c.name = name := by
  obtain ⟨dialect, -, h⟩ := Except.bind_eq_ok.mp h
  exact congrArg Connection.name (Except.pure_eq_ok.mp h).symm

theorem name_of_tenant? (h : r.tenant? name = some c) : c.name = name := by
  simp only [tenant?, Option.bind_eq_bind, Option.bind_eq_some_iff, Option.pure_def, Option.some.injEq] at h
  obtain ⟨id, -, pattern, -, rfl⟩ := h
  rfl

/-- A registry that is made of settings finds every connection under its own name. -/
theorem named_of? {connections : NameMap ConnectionSettings} {tenants : Option TenantSettings}
    {limit : UInt32} (h : of? connections tenants limit = .ok r) : r.Named := by
  simp only [of?, Except.bind_eq_ok, Except.pure_eq_ok] at h
  obtain ⟨fixed, hfixed, pattern, -, rfl⟩ := h
  intro name c hfind
  rw [find?_eq_ok] at hfind
  cases hget : (NameMap.ofList fixed).get? name with
  | none =>
      simp only [hget] at hfind
      exact name_of_tenant? hfind
  | some own =>
      simp only [hget] at hfind
      cases hfind
      obtain ⟨entry, -, hentry⟩ := Except.exists_of_mem_mapM hfixed (NameMap.mem_of_get?_ofList hget)
      simp only [Except.bind_eq_ok, Except.pure_eq_ok, Prod.mk.injEq] at hentry
      obtain ⟨own, hown, rfl, rfl⟩ := hentry
      exact name_of_connection? hown

/-- To resolve a name changes nothing of what is found. -/
theorem find?_of_resolve {next : Registry} (h : r.resolve name = .ok (c, next)) : next.find? = r.find? := by
  simp only [resolve, Except.bind_eq_ok, Except.pure_eq_ok, Prod.mk.injEq] at h
  obtain ⟨found, hfind, rfl, rfl⟩ := h
  split
  · rfl
  · rename_i hholds
    simp only [holds, NameMap.contains, Bool.or_eq_true, not_or, Bool.not_eq_true,
      Option.isSome_eq_false_iff, Option.isNone_iff_eq_none] at hholds
    obtain ⟨hfixed, hkept⟩ := hholds
    have htenant := find?_eq_ok.mp hfind
    rw [hfixed, hkept] at htenant
    funext other
    by_cases hother : other = name
    · rw [hother, hfind, find?_eq_ok, hfixed, NameMap.get?_insert, if_pos rfl]
      rfl
    · rw [find?, find?, NameMap.get?_insert, if_neg hother]
      rfl

theorem exists_resolve (h : r.find? name = .ok c) : ∃ next, r.resolve name = .ok (c, next) := by
  rw [resolve, h]
  exact ⟨_, rfl⟩

theorem resolve_eq_error {fault : Fault} (h : r.find? name = .error fault) :
    r.resolve name = .error fault := by
  rw [resolve, h, Except.error_bind]

end TableGate.Registry
