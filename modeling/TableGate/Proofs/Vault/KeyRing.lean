import TableGate.Proofs.Failure
import TableGate.Vault.Codec

/-! # Key rings and vaults that can be reached

The keys of a ring stand in increasing order of their versions and have the right length, and the active
one is among them. So every key that a vault encrypts with is found again under its version. -/

namespace TableGate

/-- A ring whose keys are found under their versions. -/
structure KeyRing.Valid (ring : KeyRing) : Prop where
  increasing : ring.keys.Pairwise fun a b => a.version < b.version
  lengths : ∀ key ∈ ring.keys, key.bytes.length = KeyMaterial.keyLength
  active_mem : ring.active ∈ ring.keys

namespace KeyRing

/-! ## Lists of keys -/

theorem mem_put {key x : KeyMaterial} {keys : List KeyMaterial} (h : x ∈ put key keys) :
    x = key ∨ x ∈ keys := by
  induction keys with
  | nil => exact .inl (List.mem_singleton.mp h)
  | cons head rest ih =>
      unfold put at h
      split at h
      · exact (List.mem_cons.mp h).imp_right id
      · split at h
        · rcases List.mem_cons.mp h with rfl | h
          · exact .inr List.mem_cons_self
          · exact (ih h).imp_right (List.mem_cons_of_mem _)
        · exact (List.mem_cons.mp h).imp_right (List.mem_cons_of_mem _)

theorem mem_put_self (key : KeyMaterial) (keys : List KeyMaterial) : key ∈ put key keys := by
  induction keys with
  | nil => exact List.mem_singleton_self key
  | cons head rest ih =>
      unfold put
      split
      · exact List.mem_cons_self
      · split
        · exact List.mem_cons_of_mem _ ih
        · exact List.mem_cons_self

/-- Only a key of the same version gives way. -/
theorem mem_put_of_ne {key x : KeyMaterial} {keys : List KeyMaterial} (hx : x ∈ keys)
    (hne : x.version ≠ key.version) : x ∈ put key keys := by
  induction keys with
  | nil => cases hx
  | cons head rest ih =>
      unfold put
      split
      · exact List.mem_cons_of_mem _ hx
      · rename_i hge
        split
        · rcases List.mem_cons.mp hx with rfl | hx
          · exact List.mem_cons_self
          · exact List.mem_cons_of_mem _ (ih hx)
        · rename_i hle
          rcases List.mem_cons.mp hx with rfl | hx
          · exact absurd (UInt32.le_antisymm (UInt32.not_lt.mp hge) (UInt32.not_lt.mp hle)) hne
          · exact List.mem_cons_of_mem _ hx

theorem pairwise_put (key : KeyMaterial) {keys : List KeyMaterial}
    (h : keys.Pairwise fun a b => a.version < b.version) :
    (put key keys).Pairwise fun a b => a.version < b.version := by
  induction keys with
  | nil => simp [put]
  | cons head rest ih =>
      obtain ⟨hhead, hrest⟩ := List.pairwise_cons.mp h
      unfold put
      split
      · rename_i hlt
        refine List.pairwise_cons.mpr ⟨fun x hx => ?_, h⟩
        rcases List.mem_cons.mp hx with rfl | hx
        · exact hlt
        · exact UInt32.lt_trans hlt (hhead x hx)
      · rename_i hge
        split
        · rename_i hlt
          refine List.pairwise_cons.mpr ⟨fun x hx => ?_, ih hrest⟩
          rcases mem_put hx with rfl | hx
          · exact hlt
          · exact hhead x hx
        · rename_i hle
          have hsame : head.version = key.version :=
            UInt32.le_antisymm (UInt32.not_lt.mp hge) (UInt32.not_lt.mp hle)
          exact List.pairwise_cons.mpr ⟨fun x hx => hsame ▸ hhead x hx, hrest⟩

theorem mem_of_lookup? {keys : List KeyMaterial} {version : UInt32} {key : KeyMaterial}
    (h : lookup? keys version = some key) : key ∈ keys ∧ key.version = version := by
  refine ⟨List.mem_of_find?_eq_some h, ?_⟩
  simpa using List.find?_some h

theorem lookup?_of_mem {keys : List KeyMaterial} (hkeys : keys.Pairwise fun a b => a.version < b.version)
    {key : KeyMaterial} (h : key ∈ keys) : lookup? keys key.version = some key := by
  induction keys with
  | nil => cases h
  | cons head rest ih =>
      obtain ⟨hhead, hrest⟩ := List.pairwise_cons.mp hkeys
      rcases List.mem_cons.mp h with rfl | h
      · simp [lookup?]
      · have hne : (head.version == key.version) = false := by
          rw [beq_eq_false_iff_ne]
          exact UInt32.ne_of_lt (hhead key h)
        rw [lookup?, List.find?_cons_of_neg (by simp [hne])]
        exact ih hrest h

theorem checked_eq_ok {key checked : KeyMaterial} (h : key.checked = .ok checked) :
    checked = key ∧ key.bytes.length = KeyMaterial.keyLength := by
  unfold KeyMaterial.checked at h
  split at h
  · rename_i hlength
    cases h
    exact ⟨rfl, hlength⟩
  · cases h

theorem isSome_lookup? {keys : List KeyMaterial} {version : UInt32} :
    (lookup? keys version).isSome ↔ version ∈ keys.map (·.version) := by
  simp [lookup?, List.find?_isSome]

/-- A key is collected if it has the right length and a new version. -/
theorem collect_cons_eq_ok {keys rest collected : List KeyMaterial} {next : KeyMaterial} :
    collect keys (next :: rest) = .ok collected ↔ next.bytes.length = KeyMaterial.keyLength ∧
      next.version ∉ keys.map (·.version) ∧ collect (put next keys) rest = .ok collected := by
  rw [← isSome_lookup?]
  by_cases hlength : next.bytes.length = KeyMaterial.keyLength
  · by_cases hsome : (lookup? keys next.version).isSome = true
    · simp [collect, KeyMaterial.checked, hlength, hsome, bind, Except.bind]
    · simp [collect, KeyMaterial.checked, hlength, hsome, bind, Except.bind]
  · simp [collect, KeyMaterial.checked, hlength, bind, Except.bind]

/-- The keys of a ring, without the active one. -/
theorem collect_valid {keys added collected : List KeyMaterial}
    (hkeys : keys.Pairwise fun a b => a.version < b.version)
    (hlengths : ∀ key ∈ keys, key.bytes.length = KeyMaterial.keyLength)
    (h : collect keys added = .ok collected) :
    (collected.Pairwise fun a b => a.version < b.version) ∧
      ∀ key ∈ collected, key.bytes.length = KeyMaterial.keyLength := by
  induction added generalizing keys with
  | nil =>
      cases h
      exact ⟨hkeys, hlengths⟩
  | cons next rest ih =>
      obtain ⟨hlength, -, hrest⟩ := collect_cons_eq_ok.mp h
      refine ih (pairwise_put next hkeys) (fun x hx => ?_) hrest
      rcases mem_put hx with rfl | hx
      · exact hlength
      · exact hlengths x hx

/-! ## Rings -/

theorem Valid.ofKeys? {keys : List KeyMaterial} {active : Option UInt32} {random : Bytes}
    {ring : KeyRing} (h : ofKeys? keys active random = .ok ring) : ring.Valid := by
  simp only [KeyRing.ofKeys?, Except.bind_eq_ok] at h
  obtain ⟨collected, hcollected, h⟩ := h
  obtain ⟨hincreasing, hlengths⟩ := collect_valid .nil (by simp) hcollected
  split at h
  · split at h
    · rename_i key hkey
      cases h
      exact ⟨hincreasing, hlengths, (mem_of_lookup? hkey).1⟩
    · cases h
  · split at h
    · rename_i key hkey
      cases h
      exact ⟨hincreasing, hlengths, List.mem_of_getLast? hkey⟩
    · cases h

variable {ring : KeyRing}

/-- A key that becomes active is of the next version and has the right length. -/
theorem eq_of_rotate {bytes : Bytes} {rotated : KeyRing} (h : ring.rotate bytes = some (.ok rotated)) :
    ∃ version, ring.nextVersion? = some version ∧ bytes.length = KeyMaterial.keyLength ∧
      rotated = ⟨put ⟨version, bytes⟩ ring.keys, ⟨version, bytes⟩⟩ := by
  obtain ⟨version, hversion, h⟩ := Option.map_eq_some_iff.mp h
  obtain ⟨key, hkey, h⟩ := Except.bind_eq_ok.mp h
  obtain ⟨rfl, hlength⟩ := checked_eq_ok hkey
  exact ⟨version, hversion, hlength, (Except.pure_eq_ok.mp h).symm⟩

theorem Valid.rotate (hring : ring.Valid) {bytes : Bytes} {rotated : KeyRing}
    (h : ring.rotate bytes = some (.ok rotated)) : rotated.Valid := by
  obtain ⟨version, -, hlength, rfl⟩ := eq_of_rotate h
  refine ⟨pairwise_put _ hring.increasing, fun x hx => ?_, mem_put_self _ _⟩
  rcases mem_put hx with rfl | hx
  · exact hlength
  · exact hring.lengths x hx

theorem Valid.add (hring : ring.Valid) {key : KeyMaterial} {added : KeyRing}
    (h : ring.add key = .ok added) : added.Valid := by
  simp only [KeyRing.add, Except.bind_eq_ok] at h
  obtain ⟨checked, hchecked, h⟩ := h
  obtain ⟨rfl, hlength⟩ := checked_eq_ok hchecked
  split at h
  · cases h
  · rename_i hnew
    cases h
    have hne : ring.active.version ≠ checked.version := by
      intro hsame
      rw [get?, ← hsame, lookup?_of_mem hring.increasing hring.active_mem] at hnew
      simp at hnew
    refine ⟨pairwise_put _ hring.increasing, fun x hx => ?_, mem_put_of_ne hring.active_mem hne⟩
    rcases mem_put hx with rfl | hx
    · exact hlength
    · exact hring.lengths x hx

theorem Valid.get? (hring : ring.Valid) {key : KeyMaterial} (h : key ∈ ring.keys) :
    ring.get? key.version = some key :=
  lookup?_of_mem hring.increasing h

end KeyRing

namespace Vault

/-- The vaults that are reached from a new one by changes of their encrypted columns and of their
keys. -/
inductive Reachable (suite : CipherSuite) : Vault → Prop
  | new {configured : List KeyMaterial} {active : Option UInt32} {random : Bytes} {keys : KeyRing}
      (hkeys : KeyRing.ofKeys? configured active random = .ok keys) (pepper : Bytes)
      (algorithm : CipherAlgorithm) : Reachable suite (Vault.new suite keys pepper algorithm)
  | register {v : Vault} (hv : Reachable suite v) (connection table : String)
      (column : EncryptedColumn) : Reachable suite (v.register connection table column)
  | unregister {v : Vault} (hv : Reachable suite v) (connection table column : String) :
      Reachable suite (v.unregister connection table column)
  | rename {v : Vault} (hv : Reachable suite v) (connection table source target : String) :
      Reachable suite (v.rename connection table source target)
  | unregisterTable {v : Vault} (hv : Reachable suite v) (connection table : String) :
      Reachable suite (v.unregisterTable connection table)
  | rotate {v w : Vault} (hv : Reachable suite v) {bytes : Bytes} (hw : v.rotate bytes = some (.ok w)) :
      Reachable suite w
  | addKey {v w : Vault} (hv : Reachable suite v) {key : KeyMaterial} (hw : v.addKey key = .ok w) :
      Reachable suite w

variable {suite : CipherSuite} {v : Vault}

/-- No change touches the cipher, and each leaves the ring in order. -/
theorem Reachable.valid (h : v.Reachable suite) : v.suite = suite ∧ v.keys.Valid := by
  induction h with
  | new hkeys pepper algorithm => exact ⟨rfl, .ofKeys? hkeys⟩
  | register _ connection table column ih => exact ih
  | unregister _ connection table column ih => exact ih
  | rename _ connection table source target ih => exact ih
  | unregisterTable _ connection table ih => exact ih
  | rotate _ hw ih =>
      obtain ⟨rotated, hrotated, hw⟩ := Option.map_eq_some_iff.mp hw
      obtain ⟨keys, rfl, rfl⟩ := Except.map_eq_ok.mp hw
      exact ⟨ih.1, ih.2.rotate hrotated⟩
  | addKey _ hw ih =>
      simp only [Vault.addKey, Except.bind_eq_ok, Except.pure_eq_ok] at hw
      obtain ⟨keys, hkeys, rfl⟩ := hw
      exact ⟨ih.1, ih.2.add hkeys⟩

end Vault

end TableGate
