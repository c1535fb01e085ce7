import TableGate.Proofs.Bytes.Base64
import TableGate.Proofs.Text.Blank
import TableGate.Proofs.Text.Decimal
import TableGate.Proofs.Vault.KeyHistory

/-! # Configured keys

A list of keys is read from its text, whatever blanks and empty entries there are in it. A ring is made of the
keys if each has the right length and a version of its own and the active version is among them; it has the keys
that were given and no others, in the order of their versions. -/

namespace TableGate

/-! ## The text of a list -/

theorem Base64.solid_encodeChars (bs : Bytes) : Text.Solid (encodeChars .standard true bs) := by
  have hall : ∀ n < 64, Text.isBlank (char .standard n) = false := by decide
  intro c hc
  rcases mem_encodeChars hc with rfl | ⟨n, hn, rfl⟩
  · decide
  · exact hall n hn

theorem Base64.comma_notMem_encodeChars (bs : Bytes) : ',' ∉ encodeChars .standard true bs := by
  have hall : ∀ n < 64, ',' ≠ char .standard n := by decide
  intro hmem
  rcases mem_encodeChars hmem with hpad | ⟨n, hn, hchar⟩
  · exact absurd hpad (by decide)
  · exact hall n hn hchar

theorem Text.Numeral.solid {n : ℕ} {cs : List Char} (h : Numeral n cs) : Solid cs := by
  intro c hc
  rcases h.eq_plus_or_isDigit hc with rfl | hdigit
  · decide
  · exact isBlank_of_isWordChar (isWordChar_of_isDigit hdigit)

namespace KeyMaterial

/-- The text is the entry of a key in a list: its version, a colon, and its bytes in base 64, with blanks around
each. -/
def Written (key : KeyMaterial) (entry : List Char) : Prop :=
  ∃ front version left right back, Text.Blanks front ∧ Text.Numeral key.version.toNat version ∧
    Text.Blanks left ∧ Text.Blanks right ∧ Text.Blanks back ∧
    entry = front ++ version ++ left ++ ':' :: (right ++ Base64.encodeChars .standard true key.bytes ++ back)

/-- The entries are those of the keys, one after the other, and empty ones between them. -/
inductive Listed : List KeyMaterial → List (List Char) → Prop
  | nil : Listed [] []
  | blank {keys : List KeyMaterial} {entry : List Char} {entries : List (List Char)}
      (hentry : Text.Blanks entry) (hentries : Listed keys entries) : Listed keys (entry :: entries)
  | key {key : KeyMaterial} {keys : List KeyMaterial} {entry : List Char} {entries : List (List Char)}
      (hentry : key.Written entry) (hentries : Listed keys entries) : Listed (key :: keys) (entry :: entries)

theorem Written.comma_notMem {key : KeyMaterial} {entry : List Char} (h : key.Written entry) : ',' ∉ entry := by
  obtain ⟨front, version, left, right, back, hfront, hversion, hleft, hright, hback, rfl⟩ := h
  have hblank {blanks : List Char} (hblanks : Text.Blanks blanks) : ',' ∉ blanks := hblanks.notMem (by decide)
  simp [hblank hfront, hblank hleft, hblank hright, hblank hback, Base64.comma_notMem_encodeChars,
    hversion.notMem]

theorem Listed.comma_notMem {keys : List KeyMaterial} {entries : List (List Char)} (h : Listed keys entries) :
    ∀ entry ∈ entries, ',' ∉ entry := by
  induction h with
  | nil => simp
  | blank hentry _ ih => exact List.forall_mem_cons.mpr ⟨hentry.notMem (by decide), ih⟩
  | key hentry _ ih => exact List.forall_mem_cons.mpr ⟨hentry.comma_notMem, ih⟩

theorem read_parts {key : KeyMaterial} {version encoded : List Char} (hcolon : ':' ∉ version)
    (hversion : Text.Numeral key.version.toNat (Text.trimChars version))
    (hencoded : Text.trimChars encoded = Base64.encodeChars .standard true key.bytes) :
    ofEntry? (version ++ ':' :: encoded) = .ok key := by
  have hle : key.version.toNat ≤ Text.maxUInt32 := Nat.le_pred_of_lt key.version.toNat_lt
  rw [ ofEntry?, Text.cut?_append (Text.beq_eq_false_of_notMem hcolon) (beq_self_eq_true ':')]
  simp only [Text.toNat?_eq_some.mpr ⟨hversion, hle⟩, hencoded, Base64.decodeChars?_encodeChars,
    UInt32.ofNat_toNat]

theorem Written.colon_mem {key : KeyMaterial} {entry : List Char} (h : key.Written entry) : ':' ∈ entry := by
  obtain ⟨front, version, left, right, back, -, -, -, -, -, rfl⟩ := h
  simp

/-- The entry of a key is read as the key. -/
theorem Written.read {key : KeyMaterial} {entry : List Char} (h : key.Written entry) :
    ofEntry? (Text.trimChars entry) = .ok key := by
  obtain ⟨front, version, left, right, back, hfront, hversion, hleft, hright, hback, rfl⟩ := h
  -- what is left of the blanks around the entry and around the colon goes with the version and the encoding
  rw [Text.trimChars_append_cons (by decide)]
  refine read_parts ?_ ?_ ?_
  · intro hmem
    have hall : ':' ∉ front ++ version ++ left := by
      simp [hfront.notMem (c := ':') (by decide), hleft.notMem (c := ':') (by decide), hversion.notMem]
    exact hall ((List.dropWhile_sublist _).mem hmem)
  · rw [Text.trimChars_dropWhile, Text.trimChars_append_blank hleft, Text.trimChars_blank_append hfront,
      Text.trimChars_of_solid hversion.solid]
    exact hversion
  · rw [Text.trimChars_rdropWhile, Text.trimChars_append_blank hback, Text.trimChars_blank_append hright,
      Text.trimChars_of_solid (Base64.solid_encodeChars key.bytes)]

theorem Listed.mapM_read {keys : List KeyMaterial} {entries : List (List Char)} (h : Listed keys entries) :
    ((entries.map Text.trimChars).filter fun entry => !entry.isEmpty).mapM ofEntry? = .ok keys := by
  induction h with
  | nil => rfl
  | blank hentry _ ih =>
      have hempty := Text.trimChars_append_blank hentry []
      rw [List.nil_append] at hempty
      rw [List.map_cons, hempty]
      exact ih
  | key hentry _ ih =>
      have hne : Text.trimChars _ ≠ [] := List.ne_nil_of_mem (Text.mem_trimChars hentry.colon_mem (by decide))
      rw [List.map_cons, List.filter_cons_of_pos (by simpa using hne), List.mapM_cons, hentry.read, ih]
      rfl

/-- A list of keys is read from its entries with commas between them. -/
theorem Listed.listOfText? {keys : List KeyMaterial} {entries : List (List Char)} (h : Listed keys entries) :
    KeyMaterial.listOfText? (String.ofList ([','].intercalate entries)) = .ok keys := by
  have hpieces : Listed keys (Text.pieces (· == ',') ([','].intercalate entries)) := by
    by_cases hne : entries = []
    · subst hne
      cases h
      exact .blank Text.blanks_nil .nil
    · rwa [Text.pieces_intercalate hne h.comma_notMem]
  rw [KeyMaterial.listOfText?, String.toList_ofList]
  exact hpieces.mapM_read

end KeyMaterial

/-! ## The ring of a list -/

namespace KeyRing

/-- A ring can be made of the keys. -/
structure Accepted (keys : List KeyMaterial) (active : Option UInt32) : Prop where
  lengths : ∀ key ∈ keys, key.bytes.length = KeyMaterial.keyLength
  nodup : (keys.map (·.version)).Nodup
  active : ∀ version ∈ active, version ∈ keys.map (·.version)

/-- The ring has these keys and no others in the order of their versions, and that of the given version, or else
of the highest one, is active. -/
structure Holds (ring : KeyRing) (keys : List KeyMaterial) (active : Option UInt32) : Prop where
  ascending : ring.versions.Pairwise (· < ·)
  versions : ∀ version, version ∈ ring.versions ↔ version ∈ keys.map (·.version)
  get? : ∀ version key, ring.get? version = some key ↔ key ∈ keys ∧ key.version = version
  active_mem : ring.active ∈ keys
  active_version : match active with
    | some version => ring.active.version = version
    | none => ∀ key ∈ keys, key.version ≤ ring.active.version

/-- Under a new version a key is put beside the others. -/
theorem mem_put_iff {key x : KeyMaterial} {keys : List KeyMaterial} (h : key.version ∉ keys.map (·.version)) :
    x ∈ put key keys ↔ x = key ∨ x ∈ keys := by
  constructor
  · exact mem_put
  · rintro (rfl | hx)
    · exact mem_put_self x keys
    · exact mem_put_of_ne hx fun hsame => h (hsame ▸ List.mem_map_of_mem hx)

/-- The keys that were put in and those that were there are collected, and no others. -/
theorem mem_of_collect {keys added collected : List KeyMaterial} (h : collect keys added = .ok collected)
    {key : KeyMaterial} : key ∈ collected ↔ key ∈ keys ∨ key ∈ added := by
  induction added generalizing keys with
  | nil =>
      cases h
      simp
  | cons next rest ih =>
      obtain ⟨-, hfresh, hrest⟩ := collect_cons_eq_ok.mp h
      rw [ih hrest, mem_put_iff hfresh, List.mem_cons]
      tauto

theorem mem_versions_put {key : KeyMaterial} {keys : List KeyMaterial} {version : UInt32} :
    version ∈ (put key keys).map (·.version) ↔ version = key.version ∨ version ∈ keys.map (·.version) := by
  simp only [List.mem_map]
  constructor
  · rintro ⟨x, hx, rfl⟩
    exact (mem_put hx).imp (congrArg _) fun hx => ⟨x, hx, rfl⟩
  · by_cases hsame : version = key.version
    · exact fun _ => ⟨key, mem_put_self key keys, hsame.symm⟩
    · rintro (hkey | ⟨x, hx, rfl⟩)
      · exact absurd hkey hsame
      · exact ⟨x, mem_put_of_ne hx hsame, rfl⟩

/-- Keys are collected if and only if they have the right length and new versions. -/
theorem exists_collect_iff {keys added : List KeyMaterial} :
    (∃ collected, collect keys added = .ok collected) ↔
      (∀ key ∈ added, key.bytes.length = KeyMaterial.keyLength) ∧ (added.map (·.version)).Nodup ∧
        ∀ version ∈ added.map (·.version), version ∉ keys.map (·.version) := by
  induction added generalizing keys with
  | nil => simp [collect]
  | cons next rest ih =>
      have hnew : (∀ version ∈ rest.map (·.version), version ∉ (put next keys).map (·.version)) ↔
          next.version ∉ rest.map (·.version) ∧
            ∀ version ∈ rest.map (·.version), version ∉ keys.map (·.version) := by
        simp only [mem_versions_put, not_or, imp_and, forall_and]
        exact and_congr_left fun _ => ⟨fun h hmem => h _ hmem rfl, fun h version hmem hsame => h (hsame ▸ hmem)⟩
      simp only [collect_cons_eq_ok, exists_and_left, ih, hnew, List.forall_mem_cons, List.map_cons,
        List.nodup_cons]
      tauto

/-- The key that becomes active: that of the given version, or the last one. -/
def chosen? (active : Option UInt32) (keys : List KeyMaterial) : Option KeyMaterial :=
  match active with
  | some version => lookup? keys version
  | none => keys.getLast?

/-- A ring is made of the collected keys and the chosen one. -/
theorem ofKeys?_eq_ok {keys : List KeyMaterial} (hne : keys ≠ []) {active : Option UInt32} {random : Bytes}
    {ring : KeyRing} : ofKeys? keys active random = .ok ring ↔
      collect [] keys = .ok ring.keys ∧ chosen? active ring.keys = some ring.active := by
  have hempty : keys.isEmpty = false := by simpa using hne
  rw [KeyRing.ofKeys?, hempty, if_neg Bool.false_ne_true, Except.bind_eq_ok]
  constructor
  · rintro ⟨collected, hcollected, h⟩
    cases active <;> dsimp only at h <;> split at h
    · rename_i key hkey
      cases h
      exact ⟨hcollected, hkey⟩
    · cases h
    · rename_i key hkey
      cases h
      exact ⟨hcollected, hkey⟩
    · cases h
  · rintro ⟨hcollected, hchosen⟩
    refine ⟨ring.keys, hcollected, ?_⟩
    cases active with
    | some version => simp only [show lookup? ring.keys version = some ring.active from hchosen]
    | none => simp only [show ring.keys.getLast? = some ring.active from hchosen]

/-- In increasing order, no version is beyond the last one. -/
theorem version_le_getLast? {keys : List KeyMaterial} (hkeys : keys.Pairwise fun a b => a.version < b.version)
    {last : KeyMaterial} (hlast : keys.getLast? = some last) {key : KeyMaterial} (hkey : key ∈ keys) :
    key.version ≤ last.version := by
  obtain ⟨init, rfl⟩ := List.getLast?_eq_some_iff.mp hlast
  rcases List.mem_append.mp hkey with hinit | hsame
  · exact UInt32.le_of_lt ((List.pairwise_append.mp hkeys).2.2 key hinit last (List.mem_singleton_self last))
  · rw [List.mem_singleton.mp hsame]
    exact UInt32.le_refl _

/-- A key is chosen unless one of another version is asked for. -/
theorem isSome_chosen?_iff {keys : List KeyMaterial} (hne : keys ≠ []) {active : Option UInt32} :
    (chosen? active keys).isSome ↔ ∀ version ∈ active, version ∈ keys.map (·.version) := by
  cases active with
  | some version => simp [chosen?, isSome_lookup?]
  | none => simp [chosen?, hne]

theorem exists_ofKeys?_iff {keys : List KeyMaterial} (hne : keys ≠ []) {active : Option UInt32} {random : Bytes} :
    (∃ ring, ofKeys? keys active random = .ok ring) ↔ Accepted keys active := by
  have hsame {collected : List KeyMaterial} (hcollected : collect [] keys = .ok collected) :
      (chosen? active collected).isSome ↔ ∀ version ∈ active, version ∈ keys.map (·.version) := by
    have hmem (key : KeyMaterial) : key ∈ collected ↔ key ∈ keys := by simpa using mem_of_collect hcollected
    obtain ⟨key, hkey⟩ := List.exists_mem_of_ne_nil keys hne
    rw [isSome_chosen?_iff (List.ne_nil_of_mem ((hmem key).mpr hkey))]
    simp only [List.mem_map, hmem]
  simp only [ofKeys?_eq_ok hne]
  constructor
  · rintro ⟨ring, hcollected, hchosen⟩
    obtain ⟨hlengths, hnodup, -⟩ := exists_collect_iff.mp ⟨ring.keys, hcollected⟩
    exact ⟨hlengths, hnodup, (hsame hcollected).mp (by rw [hchosen]; rfl)⟩
  · rintro ⟨hlengths, hnodup, hactive⟩
    obtain ⟨collected, hcollected⟩ : ∃ collected, collect [] keys = .ok collected :=
      exists_collect_iff.mpr ⟨hlengths, hnodup, by simp⟩
    obtain ⟨key, hkey⟩ := Option.isSome_iff_exists.mp ((hsame hcollected).mpr hactive)
    exact ⟨⟨collected, key⟩, hcollected, hkey⟩

theorem holds_ofKeys? {keys : List KeyMaterial} (hne : keys ≠ []) {active : Option UInt32} {random : Bytes}
    {ring : KeyRing} (h : ofKeys? keys active random = .ok ring) : ring.Holds keys active := by
  have hvalid : ring.Valid := .ofKeys? h
  obtain ⟨hcollected, hchosen⟩ := (ofKeys?_eq_ok hne).mp h
  have hmem (key : KeyMaterial) : key ∈ ring.keys ↔ key ∈ keys := by simpa using mem_of_collect hcollected
  refine ⟨?_, ?_, ?_, ?_, ?_⟩
  · exact List.pairwise_map.mpr hvalid.increasing
  · simp only [versions, List.mem_map, hmem, implies_true]
  · intro version key
    rw [get?, lookup?_eq_some hvalid.increasing, hmem]
  · exact (hmem ring.active).mp hvalid.active_mem
  · cases active with
    | some version => exact (mem_of_lookup? hchosen).2
    | none => exact fun key hkey => version_le_getLast? hvalid.increasing hchosen ((hmem key).mpr hkey)

/-- A list of keys is read from its text, with any blanks and empty entries in it. Of keys, of which there is at
least one, a ring is made if and only if they have the right length and different versions and the active version
is one of them, and it holds them. -/
theorem configured_keys :
    (∀ keys entries, KeyMaterial.Listed keys entries →
      KeyMaterial.listOfText? (String.ofList ([','].intercalate entries)) = .ok keys) ∧
    ∀ keys active random, keys ≠ [] →
      ((∃ ring, ofKeys? keys active random = .ok ring) ↔ Accepted keys active) ∧
      ∀ ring, ofKeys? keys active random = .ok ring → ring.Holds keys active :=
  ⟨fun _ _ => KeyMaterial.Listed.listOfText?, fun _ _ _ hne =>
    ⟨exists_ofKeys?_iff hne, fun _ => holds_ofKeys? hne⟩⟩

/-- Two keys in descending order, with an empty entry between them. -/
theorem configured_keys_spaced :
    let first : KeyMaterial := ⟨7, List.replicate 32 1⟩
    let second : KeyMaterial := ⟨2, List.replicate 32 2⟩
    let entries := [" 7 :\t".toList ++ Base64.encodeChars .standard true first.bytes, "  ".toList,
      "+02:".toList ++ Base64.encodeChars .standard true second.bytes]
    KeyMaterial.listOfText? (String.ofList ([','].intercalate entries)) = .ok [first, second] ∧
      ∃ ring, ofKeys? [first, second] none [] = .ok ring ∧ ring.Holds [first, second] none := by
  intro first second entries
  have hseven := Text.digitsToNat?_eq_some.mp (show Text.digitsToNat? ['7'] = some 7 from rfl)
  have htwo := Text.digitsToNat?_eq_some.mp (show Text.digitsToNat? ['0', '2'] = some 2 from rfl)
  have hfirst : first.Written (" 7 :\t".toList ++ Base64.encodeChars .standard true first.bytes) :=
    ⟨[' '], ['7'], [' '], ['\t'], [], Text.blanks_singleton rfl, ⟨[], ['7'], .inl rfl, hseven, rfl⟩,
      Text.blanks_singleton rfl, Text.blanks_singleton rfl, Text.blanks_nil, by simp⟩
  have hsecond : second.Written ("+02:".toList ++ Base64.encodeChars .standard true second.bytes) :=
    ⟨[], ['+', '0', '2'], [], [], [], Text.blanks_nil, ⟨['+'], ['0', '2'], .inr rfl, htwo, rfl⟩,
      Text.blanks_nil, Text.blanks_nil, Text.blanks_nil, by simp⟩
  have hblank : Text.Blanks "  ".toList := (Text.blanks_singleton rfl).append (Text.blanks_singleton rfl)
  obtain ⟨htext, hrings⟩ := configured_keys
  obtain ⟨hiff, hholds⟩ := hrings [first, second] none [] (by simp)
  obtain ⟨ring, hring⟩ := hiff.mpr ⟨by decide, by decide, by simp⟩
  exact ⟨htext _ _ (.key hfirst (.blank hblank (.key hsecond .nil))), ring, hring, hholds ring hring⟩

end KeyRing

end TableGate
