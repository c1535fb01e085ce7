import TableGate.Proofs.Vault.KeyCalls

/-! # The history of a key ring

Whatever is called, a ring keeps its keys and gets new ones under new versions. A call that cannot add such a
key fails and changes nothing, except where a new active key is asked of a ring that has a key of the greatest
version: there is no next version to count on to, and the call panics. -/

namespace TableGate

/-- The bytes of the key that a call brings. -/
def KeyCall.bytes : KeyCall → Bytes
  | .rotate bytes => bytes
  | .add key => key.bytes

namespace KeyRing

/-- A ring has got one more key by a call, under a version that no key has had. The key has become active,
and its version is beyond all others, or the active key is the same as before. -/
structure Adds (ring : KeyRing) (c : KeyCall) (new : KeyMaterial) (next : KeyRing) : Prop where
  bytes : new.bytes = c.bytes
  length : new.bytes.length = KeyMaterial.keyLength
  absent : ring.get? new.version = none
  get? : ∀ version, next.get? version = if version = new.version then some new else ring.get? version
  active : match c with
    | .rotate _ => next.active = new ∧ ∀ version ∈ ring.versions, version < new.version
    | .add key => new = key ∧ next.active = ring.active

/-- A call adds a key, or it fails and changes nothing, which happens only if it cannot add one. It does not
panic. -/
def Faithful (ring : KeyRing) (c : KeyCall) : Prop :=
  match ring.call c with
  | some (.ok next) => ∃ new, ring.Adds c new next
  | some (.error _) => ring.perform c = ring ∧ ∀ new next, ¬ring.Adds c new next
  | none => False

/-- While calls are made, one after the other, every version keeps its key, the active key is found under
its version, and every call is faithful. -/
structure AppendOnly (ring : KeyRing) (calls : List KeyCall) : Prop where
  kept : ∀ before between after, calls = before ++ between ++ after → ∀ version key,
    (before.foldl perform ring).get? version = some key →
    ((before ++ between).foldl perform ring).get? version = some key
  active : ∀ before after, calls = before ++ after →
    (before.foldl perform ring).get? (before.foldl perform ring).active.version =
      some (before.foldl perform ring).active
  faithful : ∀ before c after, calls = before ++ c :: after →
    (before.foldl perform ring).Faithful c

/-- The call asks for a new active key where no version is left for it. -/
def Exhausts (ring : KeyRing) : KeyCall → Prop
  | .rotate _ => ring.Full
  | .add _ => False

/-- None of the calls, one after the other, asks for an active key for which no version is left. -/
def Lasts (ring : KeyRing) : List KeyCall → Prop
  | [] => True
  | c :: calls => ¬ring.Exhausts c ∧ Lasts (ring.perform c) calls

instance (ring : KeyRing) : (c : KeyCall) → Decidable (ring.Exhausts c)
  | .rotate _ => inferInstanceAs (Decidable ring.Full)
  | .add _ => inferInstanceAs (Decidable False)

instance decidableLasts (ring : KeyRing) : (calls : List KeyCall) → Decidable (ring.Lasts calls)
  | [] => inferInstanceAs (Decidable True)
  | c :: calls =>
    have := decidableLasts (ring.perform c) calls
    inferInstanceAs (Decidable (_ ∧ _))

/-! ## Looking keys up -/

theorem lookup?_eq_some {keys : List KeyMaterial} (hkeys : keys.Pairwise fun a b => a.version < b.version)
    {version : UInt32} {key : KeyMaterial} :
    lookup? keys version = some key ↔ key ∈ keys ∧ key.version = version := by
  constructor
  · exact mem_of_lookup?
  · rintro ⟨hmem, rfl⟩
    exact lookup?_of_mem hkeys hmem

theorem lookup?_put {keys : List KeyMaterial} (hkeys : keys.Pairwise fun a b => a.version < b.version)
    (new : KeyMaterial) (version : UInt32) :
    lookup? (put new keys) version = if version = new.version then some new else lookup? keys version := by
  have hput := pairwise_put new hkeys
  split
  · rename_i hsame
    exact (lookup?_eq_some hput).mpr ⟨mem_put_self new keys, hsame.symm⟩
  · rename_i hne
    ext key
    rw [lookup?_eq_some hput, lookup?_eq_some hkeys]
    constructor
    · rintro ⟨hmem, rfl⟩
      rcases mem_put hmem with rfl | hmem
      · exact absurd rfl hne
      · exact ⟨hmem, rfl⟩
    · rintro ⟨hmem, rfl⟩
      exact ⟨mem_put_of_ne hmem hne, rfl⟩

variable {ring : KeyRing}

theorem get?_eq_none (hring : ring.Valid) {version : UInt32}
    (h : ∀ key ∈ ring.keys, key.version ≠ version) : ring.get? version = none := by
  rw [Option.eq_none_iff_forall_ne_some]
  intro key hkey
  obtain ⟨hmem, hversion⟩ := (lookup?_eq_some hring.increasing).mp hkey
  exact h key hmem hversion

/-! ## One call -/

theorem call_rotate {version : UInt32} (hversion : ring.nextVersion? = some version) (bytes : Bytes) :
    ring.call (.rotate bytes) = some (if bytes.length = KeyMaterial.keyLength
      then .ok ⟨put ⟨version, bytes⟩ ring.keys, ⟨version, bytes⟩⟩
      else .error (.configuration (.keyLength version.toNat bytes.length))) := by
  rw [call, KeyRing.rotate, hversion, Option.map_some, KeyMaterial.checked]
  split <;> rfl

theorem adds_rotate (hring : ring.Valid) {version : UInt32} (hversion : ring.nextVersion? = some version)
    {bytes : Bytes} (hlength : bytes.length = KeyMaterial.keyLength) :
    ring.Adds (.rotate bytes) ⟨version, bytes⟩ ⟨put ⟨version, bytes⟩ ring.keys, ⟨version, bytes⟩⟩ := by
  have hbeyond (key : KeyMaterial) (hkey : key ∈ ring.keys) : key.version < version :=
    version_lt_nextVersion hring hversion hkey
  refine ⟨rfl, hlength, ?_, lookup?_put hring.increasing _, rfl, ?_⟩
  · exact get?_eq_none hring fun key hkey => UInt32.ne_of_lt (hbeyond key hkey)
  · exact List.forall_mem_map.mpr hbeyond

theorem faithful_rotate (hring : ring.Valid) (bytes : Bytes) :
    ring.Faithful (.rotate bytes) ↔ ¬ring.Full := by
  rw [← nextVersion?_eq_none hring]
  cases hversion : ring.nextVersion? with
  | none =>
      have hcall : ring.call (.rotate bytes) = none := by rw [call, KeyRing.rotate, hversion, Option.map_none]
      simp [Faithful, hcall]
  | some version =>
      simp only [reduceCtorEq, not_false_eq_true, iff_true]
      have hcall := call_rotate hversion bytes
      split at hcall
      · rename_i hlength
        rw [Faithful, hcall]
        exact ⟨_, adds_rotate hring hversion hlength⟩
      · rename_i hlength
        rw [Faithful, hcall]
        refine ⟨by rw [perform, hcall]; rfl, fun new next h => ?_⟩
        have hbytes : new.bytes = bytes := h.bytes
        exact hlength (hbytes ▸ h.length)

theorem faithful_add (hring : ring.Valid) (key : KeyMaterial) : ring.Faithful (.add key) := by
  rw [Faithful]
  cases hadd : ring.add key with
  | ok next =>
      have hcall : ring.call (.add key) = some (.ok next) := congrArg some hadd
      simp only [KeyRing.add, Except.bind_eq_ok] at hadd
      obtain ⟨checked, hchecked, hadd⟩ := hadd
      obtain ⟨rfl, hlength⟩ := checked_eq_ok hchecked
      split at hadd
      · cases hadd
      · rename_i habsent
        cases hadd
        rw [hcall]
        exact ⟨checked, rfl, hlength, by simpa using habsent, lookup?_put hring.increasing _, rfl, rfl⟩
  | error fault =>
      have hcall : ring.call (.add key) = some (.error fault) := congrArg some hadd
      rw [hcall]
      refine ⟨by rw [perform, hcall]; rfl, fun new next h => ?_⟩
      obtain ⟨rfl, -⟩ := h.active
      simp [KeyRing.add, KeyMaterial.checked, h.length, h.absent, Except.ok_bind, pure, Except.pure] at hadd

/-- A call is faithful unless it asks for an active key for which no version is left. -/
theorem faithful_iff (hring : ring.Valid) (c : KeyCall) : ring.Faithful c ↔ ¬ring.Exhausts c := by
  cases c with
  | rotate bytes => exact faithful_rotate hring bytes
  | add key => simp [faithful_add hring key, Exhausts]

/-- A faithful call leaves every key under its version. -/
theorem Faithful.get? {c : KeyCall} (h : ring.Faithful c) {version : UInt32} {key : KeyMaterial}
    (hkey : ring.get? version = some key) : (ring.perform c).get? version = some key := by
  rw [Faithful] at h
  split at h
  · rename_i next hcall
    obtain ⟨new, hnew⟩ := h
    have hne : version ≠ new.version := by
      rintro rfl
      rw [hnew.absent] at hkey
      cases hkey
    have hperform : ring.perform c = next := by rw [perform, hcall]; rfl
    rw [hperform, hnew.get?, if_neg hne, hkey]
  · rw [h.1, hkey]
  · exact h.elim

/-! ## Calls one after the other -/

theorem Valid.perform (hring : ring.Valid) (c : KeyCall) : (ring.perform c).Valid := by
  rcases ring.perform_cases c with hsame | hcall
  · rw [hsame]
    exact hring
  · exact hring.call hcall

theorem Valid.foldl_perform (hring : ring.Valid) (calls : List KeyCall) :
    (calls.foldl KeyRing.perform ring).Valid := by
  induction calls generalizing ring with
  | nil => exact hring
  | cons c calls ih => exact ih (hring.perform c)

theorem lasts_iff (hring : ring.Valid) (calls : List KeyCall) :
    ring.Lasts calls ↔ ∀ before c after, calls = before ++ c :: after →
      (before.foldl perform ring).Faithful c := by
  induction calls generalizing ring with
  | nil => simp [Lasts]
  | cons c calls ih =>
      rw [Lasts, ← faithful_iff hring, ih (hring.perform c)]
      constructor
      · rintro ⟨hc, hcalls⟩ before d after hsplit
        cases before with
        | nil =>
            obtain ⟨rfl, -⟩ := List.cons.inj hsplit
            exact hc
        | cons e before =>
            obtain ⟨rfl, htail⟩ := List.cons.inj hsplit
            exact hcalls before d after htail
      · intro h
        exact ⟨h [] c calls rfl, fun before d after hsplit => h (c :: before) d after (by rw [hsplit]; rfl)⟩

/-- Faithful calls leave every key under its version. -/
theorem get?_of_lasts (hring : ring.Valid) {calls : List KeyCall} (h : ring.Lasts calls)
    {version : UInt32} {key : KeyMaterial} (hkey : ring.get? version = some key) :
    (calls.foldl perform ring).get? version = some key := by
  induction calls generalizing ring with
  | nil => exact hkey
  | cons c calls ih =>
      exact ih (hring.perform c) h.2 (((faithful_iff hring c).mpr h.1).get? hkey)

theorem lasts_append {before after : List KeyCall} :
    ring.Lasts (before ++ after) ↔ ring.Lasts before ∧ (before.foldl perform ring).Lasts after := by
  induction before generalizing ring with
  | nil => simp [Lasts]
  | cons c before ih => simp [Lasts, ih, and_assoc]

/-- Whatever is called, a ring only ever grows, and calls fail where they cannot add a key, if and only if no new
active key is asked of a ring that has a key of the greatest version on the way. -/
theorem appendOnly_iff {configured : List KeyMaterial} {active : Option UInt32} {random : Bytes}
    {ring : KeyRing} (hring : KeyRing.ofKeys? configured active random = .ok ring)
    (calls : List KeyCall) : ring.AppendOnly calls ↔ ring.Lasts calls := by
  have hvalid : ring.Valid := .ofKeys? hring
  constructor
  · exact fun h => (lasts_iff hvalid calls).mpr h.faithful
  · intro h
    refine ⟨?_, ?_, (lasts_iff hvalid calls).mp h⟩
    · rintro before between after rfl version key hkey
      obtain ⟨-, hbetween⟩ := lasts_append.mp (lasts_append.mp h).1
      rw [List.foldl_append]
      exact get?_of_lasts (hvalid.foldl_perform before) hbetween hkey
    · intro before after _
      have hbefore := hvalid.foldl_perform before
      exact hbefore.get? hbefore.active_mem

/-- A ring grows while a key that is too short is refused, another one becomes active, and one more is
added, the second time in vain. -/
theorem appendOnly_iff_added :
    let first : KeyMaterial := ⟨1, List.replicate 32 7⟩
    let calls : List KeyCall := [.rotate [1], .rotate (List.replicate 32 8),
      .add ⟨9, List.replicate 32 9⟩, .add ⟨9, List.replicate 32 5⟩, .rotate (List.replicate 32 6)]
    ∃ ring, KeyRing.ofKeys? [first] none [] = .ok ring ∧ ring.AppendOnly calls := by
  intro first calls
  have hring : KeyRing.ofKeys? [first] none [] = .ok ⟨[first], first⟩ := rfl
  exact ⟨_, hring, (appendOnly_iff hring calls).mpr (by decide)⟩

/-- Behind the greatest version the call for a new active key panics. The ring stays as it is. -/
theorem rotate_last_panics :
    let first : KeyMaterial := ⟨0, List.replicate 32 0⟩
    let last : KeyMaterial := ⟨4294967295, List.replicate 32 1⟩
    let rotation : KeyCall := .rotate (List.replicate 32 2)
    ∃ ring, KeyRing.ofKeys? [first, last] none [] = .ok ring ∧ ring.active = last ∧
      ring.call rotation = none ∧ ring.perform rotation = ring ∧ ¬ring.AppendOnly [rotation] := by
  intro first last rotation
  have hring : KeyRing.ofKeys? [first, last] none [] = .ok ⟨[first, last], last⟩ := by decide
  have hcall : KeyRing.call ⟨[first, last], last⟩ rotation = none := by decide
  refine ⟨_, hring, rfl, hcall, by rw [perform, hcall]; rfl, fun h => ?_⟩
  have hfaithful : KeyRing.Faithful ⟨[first, last], last⟩ rotation := h.faithful [] rotation [] rfl
  rw [Faithful, hcall] at hfaithful
  exact hfaithful

end KeyRing

end TableGate
