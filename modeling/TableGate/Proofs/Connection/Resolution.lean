import TableGate.Proofs.Connection.Registry
import TableGate.Proofs.Text.Pieces
import TableGate.Proofs.Text.Replace

/-! # What a name is resolved to

A name is resolved by what is configured, whatever has been resolved and evicted before. The connection of a tenant
leads to the filled template, which names the same dialect as the template and is another one for each tenant. -/

namespace TableGate

/-- A call on a registry: for the connection of a name, or to forget that of a tenant. -/
inductive RegistryCall where
  | resolve (name : String)
  | evict (id : String)

/-- The URL is the template with the identifier in place of every mark: between the marks, there is none, and what
is there stays. -/
def Filled (template id url : String) : Prop :=
  ∃ first rest, (∀ piece ∈ first :: rest, ¬"\x7bid\x7d".toList <:+: piece) ∧
    template.toList = "\x7bid\x7d".toList.intercalate (first :: rest) ∧
    url.toList = id.toList.intercalate (first :: rest)

namespace TenantPattern

variable {settings : TenantSettings} {limit : UInt32} {p : TenantPattern}

theorem of?_eq_ok (h : of? settings limit = .ok p) :
    idMark <:+: settings.template.toList ∧ Url.dialect? settings.template = .ok p.dialect ∧
      p = ⟨settings.template, p.dialect, settings.maxConnections.getD limit⟩ := by
  unfold of? at h
  split at h
  · rename_i hoccurs
    simp only [Except.bind_eq_ok, Except.pure_eq_ok] at h
    obtain ⟨d, hd, rfl⟩ := h
    exact ⟨Text.occursIn_iff.mp hoccurs, hd, rfl⟩
  · cases h

end TenantPattern

namespace Registry

variable {connections : NameMap ConnectionSettings} {tenants : Option TenantSettings} {limit : UInt32}
  {r fresh : Registry} {name : String} {c : Connection}

/-! ## A fresh registry -/

/-- What stands under a name after a traversal that keeps the names. -/
theorem lookup_mapM {α β : Type} {f : String → α → Except Fault β} {entries : List (String × α)}
    {made : List (String × β)}
    (h : (entries.mapM fun e => do return (e.1, ← f e.1 e.2)) = .ok made) :
    made.map (·.1) = entries.map (·.1) ∧
    ∀ name, (entries.lookup name = none → made.lookup name = none) ∧
      ∀ a, entries.lookup name = some a → ∃ b, f name a = .ok b ∧ made.lookup name = some b := by
  induction entries generalizing made with
  | nil =>
      cases h
      exact ⟨rfl, fun name => ⟨fun _ => rfl, by simp⟩⟩
  | cons e entries ih =>
      simp only [List.mapM_cons, Except.bind_eq_ok, Except.pure_eq_ok] at h
      obtain ⟨_, ⟨b, hb, rfl⟩, rest, hrest, rfl⟩ := h
      obtain ⟨hnames, hlookup⟩ := ih hrest
      refine ⟨by rw [List.map_cons, List.map_cons, hnames], fun name => ?_⟩
      rw [NameMap.lookup_cons_eq, NameMap.lookup_cons_eq]
      by_cases hname : name = e.1
      · rw [if_pos hname, if_pos hname]
        refine ⟨by simp, fun a ha => ?_⟩
        cases ha
        exact ⟨b, hname ▸ hb, rfl⟩
      · rw [if_neg hname, if_neg hname]
        exact hlookup name

/-- The parts of a registry that nothing has been asked of. -/
theorem of?_eq_ok (h : of? connections tenants limit = .ok fresh) :
    (∀ name, (connections.get? name = none → fresh.fixed.get? name = none) ∧
      ∀ settings, connections.get? name = some settings →
        ∃ c, connection? name settings limit = .ok c ∧ fresh.fixed.get? name = some c) ∧
    fresh.found = .empty ∧
    (tenants = none ∧ fresh.tenants = none ∨
      ∃ settings p, tenants = some settings ∧ TenantPattern.of? settings limit = .ok p ∧
        fresh.tenants = some p) := by
  simp only [of?, Except.bind_eq_ok, Except.pure_eq_ok] at h
  obtain ⟨entries, hentries, pattern, hpattern, rfl⟩ := h
  obtain ⟨hnames, hlookup⟩ := lookup_mapM (f := fun n s => connection? n s limit) hentries
  have hincreasing : entries.Pairwise fun a b => a.1 < b.1 := by
    have hgiven := List.pairwise_map.mpr connections.increasing
    rw [← hnames] at hgiven
    exact List.pairwise_map.mp hgiven
  refine ⟨fun name => ?_, rfl, ?_⟩
  · rw [NameMap.get?, NameMap.get?, NameMap.entries_ofList hincreasing]
    exact hlookup name
  · cases tenants with
    | none =>
        cases hpattern
        exact .inl ⟨rfl, rfl⟩
    | some settings =>
        cases hp : TenantPattern.of? settings limit with
        | error fault =>
            rw [Option.mapM_some, hp] at hpattern
            cases hpattern
        | ok p =>
            rw [Option.mapM_some, hp] at hpattern
            cases hpattern
            exact .inr ⟨settings, p, rfl, hp, rfl⟩

/-- What a name is resolved to. -/
def answer (r : Registry) (name : String) : Except Fault Connection :=
  (r.resolve name).map Prod.fst

/-- The registry after a call. A name that is not found changes nothing. -/
def perform (r : Registry) : RegistryCall → Registry
  | .resolve name => (r.resolve name).toOption.elim r Prod.snd
  | .evict id => (r.evict id).2

/-- The registry has the settings of another one, and what it has kept are connections that these settings give to
tenants. -/
structure Keeps (fresh r : Registry) : Prop where
  fixed : r.fixed = fresh.fixed
  tenants : r.tenants = fresh.tenants
  found : ∀ name c, r.found.get? name = some c → fresh.tenant? name = some c

namespace Keeps

theorem tenant? (h : Keeps fresh r) (name : String) : r.tenant? name = fresh.tenant? name := by
  rw [Registry.tenant?, Registry.tenant?, h.tenants]

/-- What has been kept does not matter. -/
theorem find? (h : Keeps fresh r) (hempty : fresh.found = .empty) (name : String) :
    r.find? name = fresh.find? name := by
  have hnone : fresh.found.get? name = none := by rw [hempty]; rfl
  rw [Registry.find?, Registry.find?, h.fixed, h.tenant?, hnone]
  cases hfound : r.found.get? name with
  | none => rfl
  | some c =>
      rw [h.found name c hfound]
      cases fresh.fixed.get? name <;> rfl

theorem resolve (h : Keeps fresh r) {next : Registry} (hresolve : r.resolve name = .ok (c, next)) :
    Keeps fresh next := by
  simp only [Registry.resolve, Except.bind_eq_ok, Except.pure_eq_ok, Prod.mk.injEq] at hresolve
  obtain ⟨own, hfind, rfl, rfl⟩ := hresolve
  split
  · exact h
  · rename_i hholds
    simp only [holds, NameMap.contains, Bool.or_eq_true, not_or, Bool.not_eq_true,
      Option.isSome_eq_false_iff, Option.isNone_iff_eq_none] at hholds
    obtain ⟨hfixed, hkept⟩ := hholds
    have htenant := find?_eq_ok.mp hfind
    rw [hfixed, hkept, h.tenant?] at htenant
    refine ⟨h.fixed, h.tenants, fun other d hd => ?_⟩
    rw [NameMap.get?_insert] at hd
    split at hd
    · rename_i hother
      cases hd
      rw [hother]
      exact htenant
    · exact h.found other d hd

theorem evict (h : Keeps fresh r) (id : String) : Keeps fresh (r.evict id).2 := by
  refine ⟨h.fixed, h.tenants, fun name c hc => h.found name c ?_⟩
  simp only [Registry.evict, NameMap.get?_erase] at hc
  split at hc
  · cases hc
  · exact hc

theorem perform (h : Keeps fresh r) (call : RegistryCall) : Keeps fresh (r.perform call) := by
  cases call with
  | resolve name =>
      rw [Registry.perform]
      cases hresolve : r.resolve name with
      | error fault => exact h
      | ok found => exact h.resolve hresolve
  | evict id => exact h.evict id

theorem calls (h : Keeps fresh r) (calls : List RegistryCall) : Keeps fresh (calls.foldl Registry.perform r) := by
  induction calls generalizing r with
  | nil => exact h
  | cons call calls ih => exact ih (h.perform call)

end Keeps

end Registry

end TableGate
