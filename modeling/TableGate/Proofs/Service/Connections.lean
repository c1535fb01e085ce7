import TableGate.Proofs.Connection.Registry
import TableGate.Proofs.Service.SchemaPlans
import TableGate.Proofs.Service.Tables
import TableGate.Proofs.Service.Plans

/-! # What is known of one connection

Services may differ in what they remember about the tables of other connections. Every request on a connection
then comes to the same plan, and what changes for the connection changes in the same way. -/

namespace TableGate.Service

/-- The services find the same connections, each under its own name, have the same keys, secrets and policy, and
remember the same about the tables of one connection. -/
structure AlikeOn (s t : Service) (connection : String) : Prop where
  named : s.registry.Named
  find? : s.registry.find? = t.registry.find?
  policy : s.policy = t.policy
  secrets : s.vault.SameSecrets t.vault
  algorithm : s.vault.algorithm = t.vault.algorithm
  state : s.tableState connection = t.tableState connection

namespace AlikeOn

variable {s t u : Service} {connection : String}

theorem refl (h : s.registry.Named) (connection : String) : s.AlikeOn s connection :=
  ⟨h, rfl, rfl, ⟨rfl, rfl, rfl⟩, rfl, rfl⟩

theorem symm (h : s.AlikeOn t connection) : t.AlikeOn s connection where
  named name c hc := h.named name c (by rw [h.find?, hc])
  find? := h.find?.symm
  policy := h.policy.symm
  secrets := ⟨h.secrets.suite.symm, h.secrets.keys.symm, h.secrets.pepper.symm⟩
  algorithm := h.algorithm.symm
  state := h.state.symm

theorem trans (h : s.AlikeOn t connection) (h' : t.AlikeOn u connection) : s.AlikeOn u connection where
  named := h.named
  find? := h.find?.trans h'.find?
  policy := h.policy.trans h'.policy
  secrets := ⟨h.secrets.suite.trans h'.secrets.suite, h.secrets.keys.trans h'.secrets.keys,
    h.secrets.pepper.trans h'.secrets.pepper⟩
  algorithm := h.algorithm.trans h'.algorithm
  state := h.state.trans h'.state

/-! ## What is read -/

section

variable (h : s.AlikeOn t connection)
include h

theorem compiler : s.compiler = t.compiler := by
  funext c
  rw [Service.compiler, Service.compiler, h.policy]

theorem columns : s.vault.columns.get connection = t.vault.columns.get connection := by
  funext table
  exact congrArg TableState.encrypted (congrFun h.state table)

theorem column? : s.catalog.column? connection = t.catalog.column? connection := by
  funext table
  exact congrArg TableState.softDelete (congrFun h.state table)

theorem encryptRow (table : String) :
    s.vault.encryptRow connection table = t.vault.encryptRow connection table := by
  funext nonces row
  rw [Vault.encryptRow, Vault.encryptRow, h.columns, h.secrets.encryptColumns]

theorem encryptRows (table : String) :
    s.vault.encryptRows connection table = t.vault.encryptRows connection table := by
  funext nonces rows
  exact h.secrets.encryptRows (congrFun h.columns table) nonces rows

theorem searchConditions (table : String) :
    s.vault.searchConditions connection table = t.vault.searchConditions connection table := by
  funext conditions
  exact h.secrets.searchConditions (congrFun h.columns table) conditions

theorem searchQuery (table : String) :
    s.vault.searchQuery connection table = t.vault.searchQuery connection table := by
  funext q
  exact Vault.AgreeOn.searchQuery q table ⟨h.secrets, fun other _ => congrFun h.columns _⟩

theorem decryptRow (table : String) :
    s.vault.decryptRow connection table = t.vault.decryptRow connection table :=
  h.secrets.decryptRow (congrFun h.columns table)

/-- What begins with the connection of the name goes on with a connection of that name. -/
theorem bind_find? {α : Type} {f g : Connection → Except Fault α}
    (hfg : ∀ c, c.name = connection → f c = g c) :
    s.registry.find? connection >>= f = t.registry.find? connection >>= g := by
  rw [← h.find?]
  cases hc : s.registry.find? connection with
  | error fault => rfl
  | ok c => exact hfg c (h.named connection c hc)

/-! ## Rows -/

theorem query (table : String) (spec : QuerySpec) :
    s.query connection table spec = t.query connection table spec :=
  h.bind_find? fun c hc => by
    simp only [decryptRows, scope, hc, h.searchQuery, h.compiler, h.column?, h.decryptRow]

theorem count (table : String) (conditions : List Condition) :
    s.count connection table conditions = t.count connection table conditions :=
  h.bind_find? fun c hc => by
    simp only [scope, hc, h.searchConditions, h.compiler, h.column?]

theorem insert (table : String) (rows : List Row) (nonces : Nonces) :
    s.insert connection table rows nonces = t.insert connection table rows nonces :=
  h.bind_find? fun c hc => by
    simp only [hc, h.encryptRows, h.compiler]

theorem update (table : String) (values : Row) (conditions : List Condition) (nonces : Nonces) :
    s.update connection table values conditions nonces = t.update connection table values conditions nonces :=
  bind_congr fun _ => h.bind_find? fun c hc => by
    simp only [hc, h.encryptRow, h.searchConditions, h.compiler]

theorem upsert (table : String) (rows : List Row) (uniqueBy : List String) (update : Option (List String))
    (nonces : Nonces) :
    s.upsert connection table rows uniqueBy update nonces =
      t.upsert connection table rows uniqueBy update nonces :=
  h.bind_find? fun c hc => by
    simp only [hc, h.columns, h.encryptRows, h.compiler]

theorem remove {c : Connection} (hc : c.name = connection) : s.remove c = t.remove c := by
  funext table conditions
  simp only [Service.remove, hc, h.searchConditions, h.compiler]

theorem markDeleted {c : Connection} (hc : c.name = connection) : s.markDeleted c = t.markDeleted c := by
  funext table column conditions
  simp only [Service.markDeleted, hc, h.searchConditions, h.compiler]

theorem softDeleteColumn? {c : Connection} (hc : c.name = connection) :
    s.softDeleteColumn? c = t.softDeleteColumn? c := by
  funext table
  rw [Service.softDeleteColumn?, Service.softDeleteColumn?, hc, h.column?]

theorem delete (table : String) (conditions : List Condition) :
    s.delete connection table conditions = t.delete connection table conditions :=
  bind_congr fun _ => h.bind_find? fun c hc => by
    simp only [h.remove hc, h.markDeleted hc, hc, h.column?]

theorem softDelete (table : String) (conditions : List Condition) :
    s.softDelete connection table conditions = t.softDelete connection table conditions :=
  bind_congr fun _ => h.bind_find? fun c hc => by
    rw [h.softDeleteColumn? hc, h.markDeleted hc]

theorem permanentDelete (table : String) (conditions : List Condition) :
    s.permanentDelete connection table conditions = t.permanentDelete connection table conditions :=
  bind_congr fun _ => h.bind_find? fun c hc => by
    rw [h.remove hc]

theorem restore (table : String) (conditions : List Condition) :
    s.restore connection table conditions = t.restore connection table conditions :=
  bind_congr fun _ => h.bind_find? fun c hc => by
    simp only [h.softDeleteColumn? hc, hc, h.searchConditions, h.compiler]

/-! ## Plans -/

theorem planSchema (table : String) (change : SchemaChange) :
    s.planSchema connection table change = t.planSchema connection table change :=
  h.bind_find? fun c hc => by
    simp only [hc, h.policy, h.algorithm, h.state]

theorem planAction (table : String) (nonces : Nonces) (action : Action) :
    s.planAction connection table nonces action = t.planAction connection table nonces action := by
  cases action <;>
    simp only [Service.planAction, fetch, fetchCount, h.query, h.count, h.insert, h.update, h.upsert,
      h.delete, h.softDelete, h.permanentDelete, h.restore, h.planSchema]

/-! ## Single texts -/

theorem encrypt (text : String) (nonce : Nonce) :
    s.encrypt connection text nonce = t.encrypt connection text nonce :=
  h.bind_find? fun c _ => by
    simp only [Vault.encrypt, Vault.sealBytes, h.secrets.keys, h.secrets.suite, h.algorithm]

theorem decrypt (text : String) : s.decrypt connection text = t.decrypt connection text :=
  h.bind_find? fun c _ => by
    simp only [Vault.decrypt, Vault.openEnvelope, h.secrets.keys, h.secrets.suite]

end

/-- A request on the connection comes to the same plan. -/
theorem plan {r : Request} (h : s.AlikeOn t r.connection) (nonces : Nonces) :
    s.plan nonces r = t.plan nonces r := by
  cases r with
  | act connection table action => exact h.planAction table nonces action
  | count connection table conditions =>
      exact congrArg (Plan.ofPrepared _) (h.count table conditions)
  | edit connection table values conditions =>
      exact congrArg (Plan.ofPrepared _) (bind_congr fun _ => h.update table values _ nonces)
  | operation o => exact bind_congr fun action => h.planAction o.table nonces action

/-! ## What changes -/

theorem applyEffect (h : s.AlikeOn t connection) (name table : String) (e : CatalogEffect) :
    (s.applyEffect name table e).AlikeOn (t.applyEffect name table e) connection := by
  have hstate : (s.applyEffect name table e).tableState connection =
      (t.applyEffect name table e).tableState connection := by
    funext other
    by_cases hother : connection = name ∧ other = table
    · obtain ⟨rfl, rfl⟩ := hother
      rw [tableState_applyEffect, tableState_applyEffect, h.state]
    · rw [tableState_applyEffect_of_ne s hother, tableState_applyEffect_of_ne t hother, h.state]
  cases e <;> exact ⟨h.named, h.find?, h.policy, ⟨h.secrets.suite, h.secrets.keys, h.secrets.pepper⟩,
    h.algorithm, hstate⟩

/-- An effect for another connection is not seen. -/
theorem applyEffect_left (h : s.AlikeOn t connection) {name : String} (hname : name ≠ connection)
    (table : String) (e : CatalogEffect) : (s.applyEffect name table e).AlikeOn t connection := by
  have hstate : (s.applyEffect name table e).tableState connection = t.tableState connection := by
    funext other
    rw [tableState_applyEffect_of_ne s (fun hsame => hname hsame.1.symm), h.state]
  cases e <;> exact ⟨h.named, h.find?, h.policy, ⟨h.secrets.suite, h.secrets.keys, h.secrets.pepper⟩,
    h.algorithm, hstate⟩

theorem applyEffects (h : s.AlikeOn t connection) (name table : String) (effects : List CatalogEffect) :
    (s.applyEffects name table effects).AlikeOn (t.applyEffects name table effects) connection := by
  induction effects generalizing s t with
  | nil => exact h
  | cons e effects ih => exact ih (h.applyEffect name table e)

theorem applyEffects_left (h : s.AlikeOn t connection) {name : String} (hname : name ≠ connection)
    (table : String) (effects : List CatalogEffect) :
    (s.applyEffects name table effects).AlikeOn t connection := by
  induction effects generalizing s with
  | nil => exact h
  | cons e effects ih => exact ih (h.applyEffect_left hname table e)

/-- It is not seen whether a name has been resolved, be it that of the connection or another one. -/
theorem resolve_left (h : s.AlikeOn t connection) {name : String} {found : Connection × Registry}
    (hfound : s.registry.resolve name = .ok found) : { s with registry := found.2 }.AlikeOn t connection := by
  have hsame : found.2.find? = s.registry.find? := Registry.find?_of_resolve hfound
  exact ⟨fun name c hc => h.named name c (by rw [← hsame, hc]), hsame.trans h.find?, h.policy, h.secrets,
    h.algorithm, h.state⟩

/-- A new key is the same one for both. -/
theorem withKeys (h : s.AlikeOn t connection) (keys : KeyRing) :
    { s with vault := { s.vault with keys } }.AlikeOn { t with vault := { t.vault with keys } } connection :=
  ⟨h.named, h.find?, h.policy, ⟨h.secrets.suite, rfl, h.secrets.pepper⟩, h.algorithm, h.state⟩

end AlikeOn

/-- A service that is made of settings finds every connection under its own name. -/
theorem named_new? {suite : CipherSuite} {settings : ServiceSettings} {random : Bytes} {s : Service}
    (h : new? suite settings random = .ok s) : s.registry.Named := by
  simp only [new?, Except.bind_eq_ok, Except.pure_eq_ok] at h
  obtain ⟨registry, hregistry, keys, -, rfl⟩ := h
  exact Registry.named_of? hregistry

/-- To encrypt a column of a table is an effect, for the connection of the name. -/
theorem registerColumn_eq (s : Service) (connection table : String) (column : EncryptedColumn) :
    s.registerColumn connection table column =
      (s.registry.find? connection).map fun c => s.applyEffect c.name table (.registerEncrypted column) := by
  rw [registerColumn]
  cases s.registry.find? connection <;> rfl

theorem enableSoftDelete_eq (s : Service) (connection table : String) (column : Option String) :
    s.enableSoftDelete connection table column = (s.registry.find? connection).map fun c =>
      s.applyEffect c.name table (.enableSoftDelete (column.getD defaultSoftDelete)) := by
  rw [enableSoftDelete]
  cases s.registry.find? connection <;> rfl

theorem rotateKey_eq (s : Service) (bytes : Bytes) :
    s.rotateKey bytes = (s.vault.keys.rotate bytes).map fun rotated =>
      rotated.map fun keys => { s with vault := { s.vault with keys } } := by
  rw [rotateKey, Vault.rotate]
  match s.vault.keys.rotate bytes with
  | none => rfl
  | some (.error _) => rfl
  | some (.ok _) => rfl

end TableGate.Service
