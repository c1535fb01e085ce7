import TableGate.Proofs.Vault.KeyRing

/-! # Calls that add keys

A ring gets a new active key or one more key, or the call fails or panics and the ring stays as it is. Every
key stays in the ring. -/

namespace TableGate

/-- A call that adds a key: one that becomes active, under the next version, or one that does not. -/
inductive KeyCall where
  | rotate (bytes : Bytes)
  | add (key : KeyMaterial)

namespace KeyRing

/-- The result of a call, unless it panics. -/
def call (ring : KeyRing) : KeyCall → Option (Except Fault KeyRing)
  | .rotate bytes => ring.rotate bytes
  | .add key => some (ring.add key)

/-- The ring after a call. One that fails or panics changes nothing. -/
def perform (ring : KeyRing) (c : KeyCall) : KeyRing :=
  ((ring.call c).bind Except.toOption).getD ring

/-- The ring has a key of the greatest version. -/
def Full (ring : KeyRing) : Prop :=
  ∃ key ∈ ring.keys, key.version.toNat = Text.maxUInt32

instance (ring : KeyRing) : Decidable ring.Full :=
  inferInstanceAs (Decidable (∃ key ∈ ring.keys, _))

variable {ring : KeyRing}

/-! ## The next version -/

/-- The last key is of the greatest version that there is in the ring. -/
theorem Valid.exists_last (hring : ring.Valid) : ∃ init last, ring.keys = init ++ [last] ∧
    ∀ key ∈ init, key.version < last.version := by
  have hne : ring.keys ≠ [] := List.ne_nil_of_mem hring.active_mem
  have hsplit := (List.dropLast_append_getLast hne).symm
  have hincreasing := hsplit ▸ hring.increasing
  exact ⟨_, _, hsplit, fun key hkey =>
    (List.pairwise_append.mp hincreasing).2.2 key hkey _ (List.mem_singleton_self _)⟩

theorem nextVersion?_eq {init : List KeyMaterial} {last : KeyMaterial} (h : ring.keys = init ++ [last]) :
    ring.nextVersion? =
      if last.version.toNat < Text.maxUInt32 then some (last.version + 1) else none := by
  simp [nextVersion?, h]

/-- The next version is beyond all others. -/
theorem version_lt_nextVersion (hring : ring.Valid) {version : UInt32}
    (hversion : ring.nextVersion? = some version) {key : KeyMaterial} (hkey : key ∈ ring.keys) :
    key.version < version := by
  obtain ⟨init, last, hkeys, hinit⟩ := hring.exists_last
  rw [nextVersion?_eq hkeys] at hversion
  split at hversion
  · rename_i hleft
    cases hversion
    have hnext : (last.version + 1).toNat = last.version.toNat + 1 := by
      rw [UInt32.toNat_add, UInt32.toNat_one]
      exact Nat.mod_eq_of_lt (Nat.add_lt_of_lt_sub hleft)
    have hlast : last.version < last.version + 1 := by
      rw [UInt32.lt_iff_toNat_lt, hnext]
      exact Nat.lt_succ_self _
    rw [hkeys] at hkey
    rcases List.mem_append.mp hkey with hkey | hkey
    · exact UInt32.lt_trans (hinit key hkey) hlast
    · rw [List.mem_singleton.mp hkey]
      exact hlast
  · cases hversion

/-- No version is left behind the greatest one. -/
theorem nextVersion?_eq_none (hring : ring.Valid) : ring.nextVersion? = none ↔ ring.Full := by
  constructor
  · intro hnone
    obtain ⟨init, last, hkeys, -⟩ := hring.exists_last
    rw [nextVersion?_eq hkeys] at hnone
    split at hnone
    · cases hnone
    · rename_i hnot
      refine ⟨last, by simp [hkeys], ?_⟩
      exact Nat.le_antisymm (Nat.le_pred_of_lt (UInt32.toNat_lt _)) (Nat.not_lt.mp hnot)
  · rintro ⟨key, hkey, hgreatest⟩
    by_contra hsome
    obtain ⟨version, hversion⟩ := Option.ne_none_iff_exists'.mp hsome
    have hlt := UInt32.lt_iff_toNat_lt.mp (version_lt_nextVersion hring hversion hkey)
    rw [hgreatest] at hlt
    exact absurd (UInt32.toNat_lt version) (Nat.not_lt.mpr (Nat.le_of_pred_lt hlt))

/-! ## Calls -/

/-- A call that succeeds leaves every key where it is. -/
theorem mem_of_call (hring : ring.Valid) {c : KeyCall} {next : KeyRing} (h : ring.call c = some (.ok next))
    {key : KeyMaterial} (hkey : key ∈ ring.keys) : key ∈ next.keys := by
  cases c with
  | rotate bytes =>
      obtain ⟨version, hversion, -, rfl⟩ := eq_of_rotate h
      exact mem_put_of_ne hkey (UInt32.ne_of_lt (version_lt_nextVersion hring hversion hkey))
  | add new =>
      simp only [call, Option.some.injEq, KeyRing.add, Except.bind_eq_ok] at h
      obtain ⟨checked, hchecked, h⟩ := h
      obtain ⟨rfl, -⟩ := checked_eq_ok hchecked
      split at h
      · cases h
      · rename_i habsent
        cases h
        refine mem_put_of_ne hkey fun hsame => ?_
        rw [← hsame, hring.get? hkey] at habsent
        exact habsent rfl

theorem Valid.call (hring : ring.Valid) {c : KeyCall} {next : KeyRing}
    (h : ring.call c = some (.ok next)) : next.Valid := by
  cases c with
  | rotate bytes => exact hring.rotate h
  | add key => exact hring.add (Option.some.inj h)

/-- After a call the ring is as it was, or as the call has made it. -/
theorem perform_cases (ring : KeyRing) (c : KeyCall) :
    ring.perform c = ring ∨ ring.call c = some (.ok (ring.perform c)) := by
  rw [perform]
  match ring.call c with
  | none => exact .inl rfl
  | some (.error _) => exact .inl rfl
  | some (.ok next) => exact .inr rfl

/-- Calls leave a ring in order, and every key in it. -/
theorem mem_of_calls (hring : ring.Valid) (calls : List KeyCall) :
    (calls.foldl perform ring).Valid ∧
      ∀ key ∈ ring.keys, key ∈ (calls.foldl perform ring).keys := by
  induction calls generalizing ring with
  | nil => exact ⟨hring, fun key h => h⟩
  | cons c calls ih =>
      rw [List.foldl_cons]
      rcases ring.perform_cases c with hsame | hcall
      · rw [hsame]
        exact ih hring
      · obtain ⟨hvalid, hmem⟩ := ih (hring.call hcall)
        exact ⟨hvalid, fun key h => hmem key (mem_of_call hring hcall h)⟩

end KeyRing

namespace Vault

def call (v : Vault) : KeyCall → Option (Except Fault Vault)
  | .rotate bytes => v.rotate bytes
  | .add key => some (v.addKey key)

/-- The vault after a call. One that fails or panics changes nothing. -/
def perform (v : Vault) (c : KeyCall) : Vault :=
  ((v.call c).bind Except.toOption).getD v

theorem perform_eq (v : Vault) (c : KeyCall) : v.perform c = { v with keys := v.keys.perform c } := by
  rw [perform, KeyRing.perform]
  cases c with
  | rotate bytes =>
      rw [call, KeyRing.call, Vault.rotate]
      match v.keys.rotate bytes with
      | none => rfl
      | some (.error _) => rfl
      | some (.ok _) => rfl
  | add key =>
      rw [call, KeyRing.call, Vault.addKey]
      cases v.keys.add key <;> rfl

/-- Calls change nothing but the keys. -/
theorem calls_eq (v : Vault) (calls : List KeyCall) :
    calls.foldl perform v = { v with keys := calls.foldl KeyRing.perform v.keys } := by
  induction calls generalizing v with
  | nil => rfl
  | cons c calls ih => rw [List.foldl_cons, List.foldl_cons, perform_eq, ih]

end Vault

end TableGate
