import TableGate.Proofs.Service.Plans
import TableGate.Proofs.Service.Sending
import TableGate.Proofs.Vault.WriteFilters

/-! # Changes of chosen rows

Updates, deletions and restorations are of rows that conditions choose. None is ever sent without conditions,
and what is sent chooses the rows by each of the conditions that were given. -/

namespace TableGate

/-! ## What is written -/

namespace Service

variable {s : Service} {c : Connection} {connection table : String} {conditions : List Condition}
  {p : Prepared AffectedInfo}

/-- The chain chooses rows by the conditions, as they are asked of the stored table. -/
def Chosen (s : Service) (c : Connection) (table : String) (conditions : List Condition) (chain : Chain) : Prop :=
  s.vault.RendersAll (s.vault.columns.get c.name table) conditions chain

/-- The write by which rows that conditions choose are changed. A deletion marks the rows of a table that keeps
deleted ones and removes those of any other table. -/
inductive Alters (s : Service) (c : Connection) (table : String) (conditions : List Condition) :
    OperationKind → Write → Prop
  | update {r : Reference} {assignments : List (Identifier × Assigned)} {chain : Chain}
      (htable : Reference.of? table = .ok r) (hchain : s.Chosen c table conditions chain) :
      s.Alters c table conditions .update (.update r assignments chain)
  | remove {kind : OperationKind} {r : Reference} {chain : Chain}
      (hkind : kind = .permanentDelete ∨ kind = .delete ∧ s.catalog.column? c.name table = none)
      (htable : Reference.of? table = .ok r) (hchain : s.Chosen c table conditions chain) :
      s.Alters c table conditions kind (.delete r chain)
  | mark {kind : OperationKind} {r : Reference} {n : Identifier} {chain whole : Chain}
      (hkind : kind = .softDelete ∨ kind = .delete) (hcolumn : s.catalog.column? c.name table = some n.text)
      (htable : Reference.of? table = .ok r) (hchain : s.Chosen c table conditions chain)
      (hwhole : chain.Beside (.nullTest (.ofName n) false) whole) :
      s.Alters c table conditions kind (.update r [(n, .now)] whole)
  | unmark {r : Reference} {n : Identifier} {chain whole : Chain}
      (hcolumn : s.catalog.column? c.name table = some n.text)
      (htable : Reference.of? table = .ok r) (hchain : s.Chosen c table conditions chain)
      (hwhole : chain.Beside (.nullTest (.ofName n) true) whole) :
      s.Alters c table conditions .restore (.update r [(n, .null)] whole)

/-- The statement is that of such a write, with its filter to be read in it. -/
def Alteration (s : Service) (c : Connection) (table : String) (kind : OperationKind)
    (conditions : List Condition) (p : Prepared AffectedInfo) : Prop :=
  ∃ w, s.Alters c table conditions kind w ∧ w.ReadsBack c.dialect ∧ p = .write c (w.statement c.dialect)

theorem requireConditions_eq_ok {kind : String} :
    requireConditions conditions kind = .ok () ↔ conditions ≠ [] := by
  cases conditions <;> simp [requireConditions]

/-- Conditions that are asked of the stored table are no fewer. -/
theorem searched_ne_nil (hne : conditions ≠ []) {searched : List Condition}
    (h : s.vault.searchConditions c.name table conditions = .ok searched) : searched ≠ [] := by
  cases conditions with
  | nil => exact absurd rfl hne
  | cons first rest =>
      simp only [Vault.searchConditions, Vault.searchAll, Except.bind_eq_ok, Except.pure_eq_ok] at h
      obtain ⟨_, -, _, -, rfl⟩ := h
      exact List.cons_ne_nil _ _

theorem chosen_of_searched {searched : List Condition}
    (hsearched : s.vault.searchConditions c.name table conditions = .ok searched) {chain : Chain}
    (hchain : Condition.chain? .parameter searched = .ok chain) : s.Chosen c table conditions chain :=
  Vault.rendersAll conditions searched chain hsearched hchain

theorem alteration_update (hne : conditions ≠ []) {values : Row} {searched : List Condition}
    (hsearched : s.vault.searchConditions c.name table conditions = .ok searched) {statement : Statement}
    (h : (s.compiler c).update table values searched = .ok statement) :
    s.Alteration c table .update conditions (.write c statement) := by
  obtain ⟨w, hw, rfl⟩ := Except.map_eq_ok.mp h
  unfold Write.updateOf? at hw
  split at hw
  · cases hw
  · simp only [Except.bind_eq_ok, Except.pure_eq_ok] at hw
    obtain ⟨assignments, -, r, hr, chain, hchain, rfl⟩ := hw
    refine ⟨_, .update hr (chosen_of_searched hsearched hchain), ?_, rfl⟩
    exact Write.readsBack rfl (searched_ne_nil hne hsearched) hchain

theorem alteration_remove {kind : OperationKind}
    (hkind : kind = .permanentDelete ∨ kind = .delete ∧ s.catalog.column? c.name table = none)
    (hne : conditions ≠ []) (h : s.remove c table conditions = .ok p) :
    s.Alteration c table kind conditions p := by
  simp only [remove, Except.bind_eq_ok, Except.pure_eq_ok] at h
  obtain ⟨searched, hsearched, statement, hstatement, rfl⟩ := h
  obtain ⟨w, hw, rfl⟩ := Except.map_eq_ok.mp hstatement
  simp only [Write.deleteOf?, Except.bind_eq_ok, Except.pure_eq_ok] at hw
  obtain ⟨r, hr, chain, hchain, rfl⟩ := hw
  refine ⟨_, .remove hkind hr (chosen_of_searched hsearched hchain), ?_, rfl⟩
  exact Write.readsBack rfl (searched_ne_nil hne hsearched) hchain

theorem alteration_mark {kind : OperationKind} (hkind : kind = .softDelete ∨ kind = .delete) {column : String}
    (hcolumn : s.catalog.column? c.name table = some column) (hne : conditions ≠ [])
    (h : s.markDeleted c table column conditions = .ok p) : s.Alteration c table kind conditions p := by
  simp only [markDeleted, Except.bind_eq_ok, Except.pure_eq_ok] at h
  obtain ⟨searched, hsearched, statement, hstatement, rfl⟩ := h
  obtain ⟨w, hw, rfl⟩ := Except.map_eq_ok.mp hstatement
  simp only [Write.softDeleteOf?, Except.bind_eq_ok, Except.pure_eq_ok] at hw
  obtain ⟨n, hn, r, hr, whole, hwhole, rfl⟩ := hw
  obtain rfl := Identifier.of?_eq_ok hn
  obtain ⟨chain, hchain, hbeside⟩ := Write.narrowed_chain (searched_ne_nil hne hsearched)
    (Write.predicate_isNull n) rfl hwhole
  refine ⟨_, .mark hkind hcolumn hr (chosen_of_searched hsearched hchain) hbeside, ?_, rfl⟩
  exact Write.readsBack rfl Write.narrowed_ne_nil hwhole

theorem alteration_unmark {column : String} (hcolumn : s.catalog.column? c.name table = some column)
    (hne : conditions ≠ []) {searched : List Condition}
    (hsearched : s.vault.searchConditions c.name table conditions = .ok searched) {statement : Statement}
    (h : (s.compiler c).restore table column searched = .ok statement) :
    s.Alteration c table .restore conditions (.write c statement) := by
  obtain ⟨w, hw, rfl⟩ := Except.map_eq_ok.mp h
  simp only [Write.restoreOf?, Except.bind_eq_ok, Except.pure_eq_ok] at hw
  obtain ⟨n, hn, r, hr, whole, hwhole, rfl⟩ := hw
  obtain rfl := Identifier.of?_eq_ok hn
  obtain ⟨chain, hchain, hbeside⟩ := Write.narrowed_chain (searched_ne_nil hne hsearched)
    (Write.predicate_isNotNull n) rfl hwhole
  refine ⟨_, .unmark hcolumn hr (chosen_of_searched hsearched hchain) hbeside, ?_, rfl⟩
  exact Write.readsBack rfl Write.narrowed_ne_nil hwhole

/-! ## Operation by operation -/

/-- The operation asks for conditions, and what it prepares is for the connection of the name and changes the rows
that they choose. -/
structure Guards (s : Service) (connection table : String) (kind : OperationKind)
    (op : List Condition → Except Fault (Prepared AffectedInfo)) : Prop where
  refuses : op [] = .error (.querySpec (.noConditions kind.name))
  alters : ∀ conditions p, op conditions = .ok p →
    ∃ c, s.registry.find? connection = .ok c ∧ s.Alteration c table kind conditions p

theorem softDeleteColumn?_eq_ok {column : String} :
    s.softDeleteColumn? c table = .ok column ↔ s.catalog.column? c.name table = some column := by
  unfold softDeleteColumn?
  split <;> simp_all

theorem guards_update (s : Service) (connection table : String) (values : Row) (nonces : Nonces) :
    s.Guards connection table .update fun conditions => s.update connection table values conditions nonces where
  refuses := rfl
  alters := by
    intro conditions p h
    simp only [update, Except.bind_eq_ok, Except.pure_eq_ok] at h
    obtain ⟨_, hne, c, hc, _, -, searched, hsearched, statement, hstatement, rfl⟩ := h
    exact ⟨c, hc, alteration_update (requireConditions_eq_ok.mp hne) hsearched hstatement⟩

theorem guards_delete (s : Service) (connection table : String) :
    s.Guards connection table .delete fun conditions => s.delete connection table conditions where
  refuses := rfl
  alters := by
    intro conditions p h
    simp only [delete, Except.bind_eq_ok] at h
    obtain ⟨_, hne, c, hc, h⟩ := h
    refine ⟨c, hc, ?_⟩
    split at h
    · rename_i column hcolumn
      exact alteration_mark (.inr rfl) hcolumn (requireConditions_eq_ok.mp hne) h
    · rename_i hcolumn
      exact alteration_remove (.inr ⟨rfl, hcolumn⟩) (requireConditions_eq_ok.mp hne) h

theorem guards_softDelete (s : Service) (connection table : String) :
    s.Guards connection table .softDelete fun conditions => s.softDelete connection table conditions where
  refuses := rfl
  alters := by
    intro conditions p h
    simp only [softDelete, Except.bind_eq_ok] at h
    obtain ⟨_, hne, c, hc, column, hcolumn, h⟩ := h
    exact ⟨c, hc, alteration_mark (.inl rfl) (softDeleteColumn?_eq_ok.mp hcolumn)
      (requireConditions_eq_ok.mp hne) h⟩

theorem guards_permanentDelete (s : Service) (connection table : String) :
    s.Guards connection table .permanentDelete fun conditions =>
      s.permanentDelete connection table conditions where
  refuses := rfl
  alters := by
    intro conditions p h
    simp only [permanentDelete, Except.bind_eq_ok] at h
    obtain ⟨_, hne, c, hc, h⟩ := h
    exact ⟨c, hc, alteration_remove (.inl rfl) (requireConditions_eq_ok.mp hne) h⟩

theorem guards_restore (s : Service) (connection table : String) :
    s.Guards connection table .restore fun conditions => s.restore connection table conditions where
  refuses := rfl
  alters := by
    intro conditions p h
    simp only [restore, Except.bind_eq_ok, Except.pure_eq_ok] at h
    obtain ⟨_, hne, c, hc, column, hcolumn, searched, hsearched, statement, hstatement, rfl⟩ := h
    exact ⟨c, hc, alteration_unmark (softDeleteColumn?_eq_ok.mp hcolumn) (requireConditions_eq_ok.mp hne)
      hsearched hstatement⟩

end Service

/-! ## Requests -/

/-- The conditions of an action that changes the rows that these choose. -/
def Action.chosen? : Action → Option (OperationKind × List Condition)
  | .update params => some (.update, params.conditions)
  | .delete conditions => some (.delete, conditions)
  | .softDelete conditions => some (.softDelete, conditions)
  | .permanentDelete conditions => some (.permanentDelete, conditions)
  | .restore conditions => some (.restore, conditions)
  | _ => none

/-- The request is for a change of the rows that the given conditions choose. A map gives the conditions that its
entries stand for. -/
inductive Request.Chooses : Request → OperationKind → Except Fault (List Condition) → Prop
  | act {connection table : String} {action : Action} {kind : OperationKind} {conditions : List Condition}
      (h : action.chosen? = some (kind, conditions)) : Chooses (.act connection table action) kind (.ok conditions)
  | edit {connection table : String} {values map : Row} :
      Chooses (.edit connection table values map) .update (Condition.ofMap? map)
  | operation {o : Operation} {action : Action} {kind : OperationKind} {conditions : List Condition}
      (haction : o.action = .ok action) (h : action.chosen? = some (kind, conditions)) :
      Chooses (.operation o) kind (.ok conditions)
  | unread {o : Operation} {fault : Fault} (haction : o.action = .error fault) :
      Chooses (.operation o) o.kind (.error fault)

theorem Service.planAction_chosen (s : Service) (connection table : String) (nonces : Nonces) {action : Action}
    {kind : OperationKind} {conditions : List Condition} (h : action.chosen? = some (kind, conditions)) :
    ∃ op, s.Guards connection table kind op ∧
      s.planAction connection table nonces action = Plan.ofPrepared .affected (op conditions) := by
  cases action with
  | update params =>
      cases h
      exact ⟨_, s.guards_update connection table params.values nonces, rfl⟩
  | delete conditions =>
      cases h
      exact ⟨_, s.guards_delete connection table, rfl⟩
  | softDelete conditions =>
      cases h
      exact ⟨_, s.guards_softDelete connection table, rfl⟩
  | permanentDelete conditions =>
      cases h
      exact ⟨_, s.guards_permanentDelete connection table, rfl⟩
  | restore conditions =>
      cases h
      exact ⟨_, s.guards_restore connection table, rfl⟩
  | _ => cases h

/-- What a request chooses rows by decides the plan. -/
theorem Request.Chooses.guarded {r : Request} {kind : OperationKind} {given : Except Fault (List Condition)}
    (h : r.Chooses kind given) (s : Service) (nonces : Nonces) :
    (∃ op, s.Guards r.connection r.table kind op ∧
      s.plan nonces r = given >>= fun conditions => Plan.ofPrepared .affected (op conditions)) ∨
    ∃ fault, given = .error fault ∧ s.plan nonces r = .error fault := by
  cases h with
  | act h => exact .inl (s.planAction_chosen _ _ nonces h)
  | @edit connection table values map =>
      exact .inl ⟨_, s.guards_update connection table values nonces, Except.map_bind _ _ _⟩
  | @operation o action _ _ haction h =>
      obtain ⟨op, hop, hplan⟩ := s.planAction_chosen o.connection o.table nonces h
      refine .inl ⟨op, hop, ?_⟩
      rw [Service.plan, haction]
      exact hplan
  | @unread o fault haction =>
      refine .inr ⟨fault, rfl, ?_⟩
      rw [Service.plan, haction]
      rfl

end TableGate
