import TableGate.Proofs.Query.Comparisons
import TableGate.Query.Spec

/-! # Where the comparisons of a query stand

A comparison of a query stands in the conditions of a SELECT, in the filters of one of its joins, or in the
condition on its groups. A rule that replaces comparisons may look at the tables around them. -/

namespace TableGate

/-- A place for comparisons: the texts for the table that its SELECT is from and for the joined tables, and
the one that the clause belongs to. The condition on the groups belongs to none of them. -/
structure Site where
  source : String
  joined : List String
  own : Option String

/-- The conditions on the groups. -/
def Having.items : Option Having → List Condition
  | some (.conditions items) => items
  | some (.raw _) | none => []

/-- The condition on the groups with its comparisons replaced. -/
def Having.mapNodes (f : ConditionNode → ConditionNode) : Having → Having
  | .conditions items => .conditions (Condition.mapAll f items)
  | .raw fragment => .raw fragment

theorem Having.map_mapNodes_eq_iff {f g : ConditionNode → ConditionNode} (having : Option Having) :
    having.map (mapNodes f) = having.map (mapNodes g) ↔
      Condition.mapAll f (items having) = Condition.mapAll g (items having) := by
  cases having with
  | none => simp [items, Condition.mapAll]
  | some having => cases having <;> simp [items, mapNodes, Condition.mapAll]

namespace SelectClauses

/-- The place for comparisons in a clause that belongs to the given table. -/
def site (c : SelectClauses) (table : String) (own : Option String) : Site :=
  ⟨table, c.joins.map (·.table), own⟩

/-- The comparisons of a clause, each with its place. -/
def sitesOf (c : SelectClauses) (table : String) (own : Option String) (conditions : List Condition) :
    List (Site × ConditionNode) :=
  (Condition.nodesOf conditions).map fun n => (c.site table own, n)

/-- The comparisons of a single SELECT, each with its place. -/
def sites (c : SelectClauses) (table : String) : List (Site × ConditionNode) :=
  c.sitesOf table (some table) c.conditions ++
    (c.joins.flatMap fun j => c.sitesOf table (some j.table) j.filters) ++
    c.sitesOf table none (Having.items c.having)

/-- The SELECT with each of its comparisons replaced. -/
def mapNodes (f : Site → ConditionNode → ConditionNode) (c : SelectClauses) (table : String) :
    SelectClauses :=
  { c with
    conditions := Condition.mapAll (f (c.site table (some table))) c.conditions
    joins := c.joins.map fun j =>
      { j with filters := Condition.mapAll (f (c.site table (some j.table))) j.filters }
    having := c.having.map (Having.mapNodes (f (c.site table none))) }

end SelectClauses

mutual

/-- The comparisons of a query, each with its place, at every depth. -/
def QuerySpec.sites (table : String) : QuerySpec → List (Site × ConditionNode)
  | .mk clauses union ctes => clauses.sites table ++ (union.sites ++ ctes.sites)

def UnionSpec.sites : UnionSpec → List (Site × ConditionNode)
  | .none => []
  | .member table query _ => query.sites table

def CteSpecs.sites : CteSpecs → List (Site × ConditionNode)
  | .nil => []
  | .raw _ _ rest => rest.sites
  | .query _ table query rest => query.sites table ++ rest.sites

end

mutual

/-- The query with each of its comparisons replaced, at every depth. -/
def QuerySpec.mapNodes (f : Site → ConditionNode → ConditionNode) (table : String) :
    QuerySpec → QuerySpec
  | .mk clauses union ctes => .mk (clauses.mapNodes f table) (union.mapNodes f) (ctes.mapNodes f)

def UnionSpec.mapNodes (f : Site → ConditionNode → ConditionNode) : UnionSpec → UnionSpec
  | .none => .none
  | .member table query all => .member table (query.mapNodes f table) all

def CteSpecs.mapNodes (f : Site → ConditionNode → ConditionNode) : CteSpecs → CteSpecs
  | .nil => .nil
  | .raw name fragment rest => .raw name fragment (rest.mapNodes f)
  | .query name table query rest => .query name table (query.mapNodes f table) (rest.mapNodes f)

end

/-! ## Replacements with the same result -/

variable {f g : Site → ConditionNode → ConditionNode}

theorem SelectClauses.forall_mem_sites {P : Site → ConditionNode → Prop} (c : SelectClauses)
    (table : String) :
    (∀ p ∈ c.sites table, P p.1 p.2) ↔
      (∀ n ∈ Condition.nodesOf c.conditions, P (c.site table (some table)) n) ∧
      (∀ j ∈ c.joins, ∀ n ∈ Condition.nodesOf j.filters, P (c.site table (some j.table)) n) ∧
      ∀ n ∈ Condition.nodesOf (Having.items c.having), P (c.site table none) n := by
  simp only [sites, sitesOf, List.forall_mem_append, List.forall_mem_flatMap, List.forall_mem_map,
    and_assoc]

theorem SelectClauses.mapNodes_eq_iff (c : SelectClauses) (table : String) :
    c.mapNodes f table = c.mapNodes g table ↔ ∀ p ∈ c.sites table, f p.1 p.2 = g p.1 p.2 := by
  rw [c.forall_mem_sites table (P := fun s n => f s n = g s n), ← Condition.mapAll_eq_iff,
    ← Condition.mapAll_eq_iff, ← Having.map_mapNodes_eq_iff]
  simp [mapNodes, Condition.mapAll_eq_iff]

mutual

/-- Two replacements have the same result if and only if they agree on the comparisons there are. -/
theorem QuerySpec.mapNodes_eq_iff : ∀ (q : QuerySpec) (table : String),
    q.mapNodes f table = q.mapNodes g table ↔ ∀ p ∈ q.sites table, f p.1 p.2 = g p.1 p.2
  | .mk clauses union ctes => by
      intro table
      rw [QuerySpec.mapNodes, QuerySpec.mapNodes, QuerySpec.sites, QuerySpec.mk.injEq,
        clauses.mapNodes_eq_iff, union.mapNodes_eq_iff, ctes.mapNodes_eq_iff,
        List.forall_mem_append, List.forall_mem_append]

theorem UnionSpec.mapNodes_eq_iff : ∀ union : UnionSpec,
    union.mapNodes f = union.mapNodes g ↔ ∀ p ∈ union.sites, f p.1 p.2 = g p.1 p.2
  | .none => by simp [UnionSpec.mapNodes, UnionSpec.sites]
  | .member table query all => by
      simp [UnionSpec.mapNodes, UnionSpec.sites, query.mapNodes_eq_iff]

theorem CteSpecs.mapNodes_eq_iff : ∀ ctes : CteSpecs,
    ctes.mapNodes f = ctes.mapNodes g ↔ ∀ p ∈ ctes.sites, f p.1 p.2 = g p.1 p.2
  | .nil => by simp [CteSpecs.mapNodes, CteSpecs.sites]
  | .raw name fragment rest => by
      simp [CteSpecs.mapNodes, CteSpecs.sites, rest.mapNodes_eq_iff]
  | .query name table query rest => by
      rw [CteSpecs.mapNodes, CteSpecs.mapNodes, CteSpecs.sites, CteSpecs.query.injEq,
        query.mapNodes_eq_iff, rest.mapNodes_eq_iff, List.forall_mem_append]
      simp

end

/-! ## Rules that may reject a comparison -/

variable {rule other : Site → ConditionNode → Except Fault ConditionNode}

namespace QuerySpec

/-- The rule accepts each comparison of the given query, and the converted query is the given one with what
it makes of them. -/
def Converted (rule : Site → ConditionNode → Except Fault ConditionNode) (table : String)
    (given converted : QuerySpec) : Prop :=
  (∀ p ∈ given.sites table, ∃ m, rule p.1 p.2 = .ok m) ∧
    converted = given.mapNodes (fun s => Condition.applied (rule s)) table

/-- The rule rejects a comparison of the query. -/
def RejectedBy (rule : Site → ConditionNode → Except Fault ConditionNode) (table : String)
    (q : QuerySpec) : Prop :=
  ∃ p ∈ q.sites table, ∀ m, rule p.1 p.2 ≠ .ok m

theorem not_rejectedBy {table : String} {q : QuerySpec} :
    ¬q.RejectedBy rule table ↔ ∀ p ∈ q.sites table, ∃ m, rule p.1 p.2 = .ok m := by
  simp [RejectedBy]

/-- Two rules convert a query in the same way if and only if they make the same of every comparison, or
each of them rejects one. -/
theorem converted_iff_converted (q : QuerySpec) (table : String) :
    (∀ r, q.Converted rule table r ↔ q.Converted other table r) ↔
      (∀ p ∈ q.sites table, (rule p.1 p.2).toOption = (other p.1 p.2).toOption) ∨
        q.RejectedBy rule table ∧ q.RejectedBy other table := by
  constructor
  · intro h
    by_cases hrule : q.RejectedBy rule table
    · refine .inr ⟨hrule, ?_⟩
      by_contra hother
      exact not_rejectedBy.mpr ((h _).mpr ⟨not_rejectedBy.mp hother, rfl⟩).1 hrule
    · have haccepted := not_rejectedBy.mp hrule
      obtain ⟨hother, hresult⟩ := (h _).mp ⟨haccepted, rfl⟩
      refine .inl fun p hp => ?_
      obtain ⟨m, hm⟩ := haccepted p hp
      obtain ⟨k, hk⟩ := hother p hp
      have hsame := (q.mapNodes_eq_iff table).mp hresult p hp
      rw [Condition.applied_of_eq_ok hm, Condition.applied_of_eq_ok hk] at hsame
      rw [hm, hk, hsame]
  · rintro (h | ⟨hrule, hother⟩) r
    · have hresult : q.mapNodes (fun s => Condition.applied (rule s)) table =
          q.mapNodes (fun s => Condition.applied (other s)) table := by
        refine (q.mapNodes_eq_iff table).mpr fun p hp => ?_
        rw [Condition.applied, Condition.applied, h p hp]
      have haccepted : (∀ p ∈ q.sites table, ∃ m, rule p.1 p.2 = .ok m) ↔
          ∀ p ∈ q.sites table, ∃ m, other p.1 p.2 = .ok m := by
        refine forall₂_congr fun p hp => exists_congr fun m => ?_
        rw [← Except.toOption_eq_some, ← Except.toOption_eq_some, h p hp]
      rw [Converted, Converted, hresult, haccepted]
    · exact iff_of_false (fun hr => not_rejectedBy.mpr hr.1 hrule)
        (fun hr => not_rejectedBy.mpr hr.1 hother)

end QuerySpec

end TableGate
