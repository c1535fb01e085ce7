import TableGate.Proofs.Query.Predicate

/-! # The comparisons of a condition

A condition is a tree with comparisons at its leaves. To understand a condition is to understand its
comparisons, and a rule that replaces comparisons replaces each where it stands. -/

namespace TableGate

namespace Condition

mutual

/-- The comparisons of a condition, from left to right. -/
def nodes : Condition → List ConditionNode
  | .node n => [n]
  | .group items _ => nodesOf items

/-- The comparisons of conditions, from left to right. -/
def nodesOf : List Condition → List ConditionNode
  | [] => []
  | c :: cs => nodes c ++ nodesOf cs

end

mutual

/-- The condition with each of its comparisons replaced. -/
def mapNodes (f : ConditionNode → ConditionNode) : Condition → Condition
  | .node n => .node (f n)
  | .group items boolean => .group (mapAll f items) boolean

/-- The conditions with each of their comparisons replaced. -/
def mapAll (f : ConditionNode → ConditionNode) : List Condition → List Condition
  | [] => []
  | c :: cs => mapNodes f c :: mapAll f cs

end

variable {f g : ConditionNode → ConditionNode}

mutual

theorem mapNodes_eq_iff : ∀ c : Condition,
    mapNodes f c = mapNodes g c ↔ ∀ n ∈ nodes c, f n = g n
  | .node n => by simp [mapNodes, nodes]
  | .group items boolean => by simp [mapNodes, nodes, mapAll_eq_iff items]

/-- Two replacements have the same result if and only if they agree on the comparisons there are. -/
theorem mapAll_eq_iff : ∀ cs : List Condition,
    mapAll f cs = mapAll g cs ↔ ∀ n ∈ nodesOf cs, f n = g n
  | [] => by simp [mapAll, nodesOf]
  | c :: cs => by
      simp only [mapAll, nodesOf, List.cons.injEq, mapNodes_eq_iff c, mapAll_eq_iff cs,
        List.mem_append, or_imp, forall_and]

end

mutual

theorem mapNodes_self : ∀ c : Condition, mapNodes (fun n => n) c = c
  | .node n => rfl
  | .group items boolean => by rw [mapNodes, mapAll_self items]

theorem mapAll_self : ∀ cs : List Condition, mapAll (fun n => n) cs = cs
  | [] => rfl
  | c :: cs => by rw [mapAll, mapNodes_self c, mapAll_self cs]

end

/-- What a rule makes of a comparison. One that it rejects stays as it is. -/
def applied (rule : ConditionNode → Except Fault ConditionNode) (n : ConditionNode) : ConditionNode :=
  (rule n).toOption.getD n

/-- The rule accepts each of the given comparisons, and the converted conditions are the given ones with
what it makes of them. -/
def Converted (rule : ConditionNode → Except Fault ConditionNode) (given converted : List Condition) :
    Prop :=
  (∀ n ∈ nodesOf given, ∃ m, rule n = .ok m) ∧ converted = mapAll (applied rule) given

theorem applied_of_eq_ok {rule : ConditionNode → Except Fault ConditionNode} {n m : ConditionNode}
    (h : rule n = .ok m) : applied rule n = m := by
  rw [applied, h]
  rfl

mutual

theorem nodes_mapNodes : ∀ c : Condition, (mapNodes f c).nodes = c.nodes.map f
  | .node n => rfl
  | .group items _ => by rw [mapNodes, nodes, nodes, nodesOf_mapAll items]

theorem nodesOf_mapAll : ∀ cs : List Condition, nodesOf (mapAll f cs) = (nodesOf cs).map f
  | [] => rfl
  | c :: cs => by
      rw [mapAll, nodesOf, nodesOf, nodes_mapNodes c, nodesOf_mapAll cs, List.map_append]

end

end Condition

/-! ## Understanding conditions -/

namespace Predicate

mutual

/-- The atoms of a predicate, from left to right. -/
def atoms : Predicate → List Atom
  | .atom a => [a]
  | .group chain => atomsOf chain

/-- The atoms of a chain, from left to right. -/
def atomsOf : List (Connector × Predicate) → List Atom
  | [] => []
  | (_, p) :: rest => atoms p ++ atomsOf rest

end

end Predicate

namespace Condition

variable {mode : ValueMode}

mutual

theorem atoms_of_predicate : ∀ (c : Condition) (p : Predicate), c.predicate? mode = .ok p →
    List.Forall₂ (fun n a => n.atom? mode = .ok a) c.nodes p.atoms
  | .node n => by
      intro p h
      rw [predicate?] at h
      obtain ⟨a, ha, rfl⟩ := Except.map_eq_ok.mp h
      exact .cons ha .nil
  | .group items boolean => by
      intro p h
      cases items with
      | nil =>
          rw [predicate?] at h
          cases h
      | cons item items =>
          rw [predicate?] at h
          · obtain ⟨chain, hchain, rfl⟩ := Except.map_eq_ok.mp h
            exact atoms_of_chain (item :: items) chain hchain
          · simp

/-- The atoms of conditions are their comparisons as they are understood, in order. -/
theorem atoms_of_chain : ∀ (cs : List Condition) (chain : Chain), chain? mode cs = .ok chain →
    List.Forall₂ (fun n a => n.atom? mode = .ok a) (nodesOf cs) (Predicate.atomsOf chain)
  | [] => by
      intro chain h
      rw [chain?] at h
      cases h
      exact .nil
  | c :: cs => by
      intro chain h
      simp only [chain?, Except.bind_eq_ok, Except.pure_eq_ok] at h
      obtain ⟨first, hfirst, rest, hrest, rfl⟩ := h
      exact List.rel_append (atoms_of_predicate c first hfirst) (atoms_of_chain cs rest hrest)

end

/-- The atoms of converted conditions are the given comparisons, each converted and understood. -/
theorem Converted.atoms {rule : ConditionNode → Except Fault ConditionNode}
    {given converted : List Condition} (h : Converted rule given converted) {chain : Chain}
    (hchain : chain? mode converted = .ok chain) :
    List.Forall₂ (fun n a => ∃ m, rule n = .ok m ∧ m.atom? mode = .ok a) (nodesOf given)
      (Predicate.atomsOf chain) := by
  obtain ⟨haccepted, rfl⟩ := h
  have hatoms := atoms_of_chain _ _ hchain
  rw [nodesOf_mapAll, List.forall₂_map_left_iff] at hatoms
  refine ((List.forall₂_and_left _ _).mpr ⟨haccepted, hatoms⟩).imp ?_
  rintro n a ⟨⟨m, hm⟩, ha⟩
  rw [applied_of_eq_ok hm] at ha
  exact ⟨m, hm, ha⟩

end Condition

end TableGate
