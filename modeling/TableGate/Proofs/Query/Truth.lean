import TableGate.Proofs.Query.Comparisons
import TableGate.Proofs.Sql.Expression

/-! # The truth of conditions

A comparison is true of a row, or false, or neither, as null makes it. In conditions that follow one another
AND binds before OR, and a group counts as one condition. Understanding conditions keeps their truth. -/

namespace TableGate

/-- The truth of a condition in SQL. -/
inductive Truth where
  | no
  | unknown
  | yes
  deriving DecidableEq, Repr

namespace Truth

def ofBool : Bool → Truth
  | true => .yes
  | false => .no

def not : Truth → Truth
  | .no => .yes
  | .unknown => .unknown
  | .yes => .no

def and : Truth → Truth → Truth
  | .no, _ | _, .no => .no
  | .yes, .yes => .yes
  | .unknown, _ | _, .unknown => .unknown

def or : Truth → Truth → Truth
  | .yes, _ | _, .yes => .yes
  | .no, .no => .no
  | .unknown, _ | _, .unknown => .unknown

/-- The truth of a run of ANDs together with the links that follow it. -/
def runOf (run : Truth) : List (Connector × Truth) → Truth
  | [] => run
  | (.and, t) :: rest => runOf (run.and t) rest
  | (.or, t) :: rest => run.or (runOf t rest)

/-- The truth of links in a row, each with the connector before it; the first connector does not count.
Without a link nothing is demanded. -/
def chain : List (Connector × Truth) → Truth
  | [] => .yes
  | (_, t) :: rest => runOf t rest

end Truth

/-! ## Conditions and chains -/

namespace Condition

mutual

/-- The truth of a condition whose comparisons have the given truth. -/
def truth (f : ConditionNode → Truth) : Condition → Truth
  | .node n => f n
  | .group items _ => .chain (links f items)

/-- The links that conditions in a row are. -/
def links (f : ConditionNode → Truth) : List Condition → List (Connector × Truth)
  | [] => []
  | c :: cs => (c.boolean, truth f c) :: links f cs

end

/-- The truth of conditions in a row. -/
def truthOf (f : ConditionNode → Truth) (cs : List Condition) : Truth :=
  .chain (links f cs)

end Condition

namespace Predicate

mutual

/-- The truth of a predicate whose atoms have the given truth. -/
def truth (f : Atom → Truth) : Predicate → Truth
  | .atom a => f a
  | .group chain => .chain (links f chain)

/-- The links of a chain. -/
def links (f : Atom → Truth) : List (Connector × Predicate) → List (Connector × Truth)
  | [] => []
  | (c, p) :: rest => (c, truth f p) :: links f rest

end

/-- The truth of a chain. -/
def truthOf (f : Atom → Truth) (chain : Chain) : Truth :=
  .chain (links f chain)

end Predicate

namespace Condition

variable {f g : ConditionNode → Truth} {r : ConditionNode → ConditionNode}

mutual

theorem truth_mapNodes : ∀ c : Condition,
    (∀ n ∈ nodes c, (r n).boolean = n.boolean ∧ f (r n) = g n) →
      (mapNodes r c).boolean = c.boolean ∧ truth f (mapNodes r c) = truth g c
  | .node n => by
      intro h
      exact h n (List.mem_singleton_self n)
  | .group items boolean => by
      intro h
      exact ⟨rfl, by rw [mapNodes, truth, truth, links_mapAll items h]⟩

/-- Replaced comparisons with the connectors and the truth of the given ones make the same links. -/
theorem links_mapAll : ∀ cs : List Condition,
    (∀ n ∈ nodesOf cs, (r n).boolean = n.boolean ∧ f (r n) = g n) → links f (mapAll r cs) = links g cs
  | [] => fun _ => rfl
  | c :: cs => by
      intro h
      obtain ⟨hboolean, htruth⟩ := truth_mapNodes c fun n hn => h n (by simp [nodesOf, hn])
      have hrest := links_mapAll cs fun n hn => h n (by simp [nodesOf, hn])
      rw [mapAll, links, links, hboolean, htruth, hrest]

end

/-- Conditions have the same truth if their comparisons do. -/
theorem truthOf_congr {cs : List Condition} (h : ∀ n ∈ nodesOf cs, f n = g n) : truthOf f cs = truthOf g cs := by
  have hlinks := links_mapAll (r := fun n => n) cs fun n hn => ⟨rfl, h n hn⟩
  rw [mapAll_self] at hlinks
  rw [truthOf, truthOf, hlinks]

variable {mode : ValueMode} {s : Atom → Truth}

mutual

theorem truth_predicate : ∀ (c : Condition) (p : Predicate), c.predicate? mode = .ok p →
    (∀ n ∈ nodes c, ∀ a, n.atom? mode = .ok a → s a = g n) → p.truth s = truth g c
  | .node n => by
      intro p h hagree
      rw [predicate?] at h
      obtain ⟨a, ha, rfl⟩ := Except.map_eq_ok.mp h
      exact hagree n (List.mem_singleton_self n) a ha
  | .group items boolean => by
      intro p h hagree
      cases items with
      | nil =>
          rw [predicate?] at h
          cases h
      | cons item items =>
          rw [predicate?] at h
          · obtain ⟨chain, hchain, rfl⟩ := Except.map_eq_ok.mp h
            rw [Predicate.truth, truth, links_chain (item :: items) chain hchain hagree]
          · simp

/-- Atoms with the truth of the comparisons that they were understood from make the same links. -/
theorem links_chain : ∀ (cs : List Condition) (chain : Chain), chain? mode cs = .ok chain →
    (∀ n ∈ nodesOf cs, ∀ a, n.atom? mode = .ok a → s a = g n) → Predicate.links s chain = links g cs
  | [] => by
      intro chain h _
      rw [chain?] at h
      cases h
      rfl
  | c :: cs => by
      intro chain h hagree
      simp only [chain?, Except.bind_eq_ok, Except.pure_eq_ok] at h
      obtain ⟨first, hfirst, rest, hrest, rfl⟩ := h
      have htruth := truth_predicate c first hfirst fun n hn => hagree n (by simp [nodesOf, hn])
      have hlinks := links_chain cs rest hrest fun n hn => hagree n (by simp [nodesOf, hn])
      rw [Predicate.links, links, htruth, hlinks]

end

end Condition

end TableGate
