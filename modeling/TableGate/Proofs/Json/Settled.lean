import Mathlib.Data.List.Basic
import TableGate.Json.Embedded
import TableGate.Proofs.NameMap

/-! # Values that are settled

A value with its entries in order is its own settled form if and only if no object in it stands for an embedded
text. An embedded text never gives back the object that stands for it. -/

namespace TableGate

namespace Value

mutual
/-- The entries of every object in the value are in increasing order of their names. -/
def isOrdered : Value → Bool
  | .array items => areOrdered items
  | .object entries => decide (entries.Pairwise fun a b => a.1 < b.1) && entriesOrdered entries
  | _ => true
def areOrdered : List Value → Bool
  | [] => true
  | v :: vs => v.isOrdered && areOrdered vs
def entriesOrdered : List (String × Value) → Bool
  | [] => true
  | (_, v) :: rest => v.isOrdered && entriesOrdered rest
end

mutual
/-- No object in the value stands for an embedded text. -/
def isLiteral : Value → Bool
  | .array items => areLiteral items
  | .object entries => !isEmbedding entries && entriesLiteral entries
  | _ => true
def areLiteral : List Value → Bool
  | [] => true
  | v :: vs => v.isLiteral && areLiteral vs
def entriesLiteral : List (String × Value) → Bool
  | [] => true
  | (_, v) :: rest => v.isLiteral && entriesLiteral rest
end

variable {valueOf : String → Option Value} {entries settled : List (String × Value)}

theorem names_settleEntries (h : settleEntries valueOf entries = some settled) :
    settled.map (·.1) = entries.map (·.1) := by
  induction entries generalizing settled with
  | nil =>
      cases h
      rfl
  | cons e rest ih =>
      simp only [settleEntries, Option.bind_eq_bind, Option.bind_eq_some_iff, Option.pure_def, Option.some.injEq] at h
      obtain ⟨v, -, others, hothers, rfl⟩ := h
      rw [List.map_cons, List.map_cons, ih hothers]

/-- Entries in order are in order once they are settled. -/
theorem increasing_settleEntries (h : settleEntries valueOf entries = some settled)
    (hentries : entries.Pairwise fun a b => a.1 < b.1) : settled.Pairwise fun a b => a.1 < b.1 := by
  have hnames : (entries.map (·.1)).Pairwise (· < ·) := List.pairwise_map.mpr hentries
  rw [← names_settleEntries h] at hnames
  exact List.pairwise_map.mp hnames

/-! ## What is literal -/

mutual

theorem settleWith_of_isLiteral : ∀ v : Value, v.isOrdered = true → v.isLiteral = true → v.settleWith valueOf = some v
  | .null, _, _ | .bool _, _, _ | .int _, _, _ | .real _, _, _ | .text _, _, _ => rfl
  | .array items, hordered, hliteral => by
      rw [settleWith, settleItems_of_areLiteral items hordered hliteral, Option.map_some]
  | .object entries, hordered, hliteral => by
      simp only [isOrdered, isLiteral, Bool.and_eq_true, decide_eq_true_eq, Bool.not_eq_true'] at hordered hliteral
      rw [settleWith, hliteral.1, if_neg Bool.false_ne_true,
        settleEntries_of_entriesLiteral entries hordered.2 hliteral.2, Option.map_some,
        NameMap.entries_ofList hordered.1]

theorem settleItems_of_areLiteral : ∀ items : List Value, areOrdered items = true → areLiteral items = true →
    settleItems valueOf items = some items
  | [], _, _ => rfl
  | v :: vs, hordered, hliteral => by
      simp only [areOrdered, areLiteral, Bool.and_eq_true] at hordered hliteral
      simp [settleItems, settleWith_of_isLiteral v hordered.1 hliteral.1,
        settleItems_of_areLiteral vs hordered.2 hliteral.2]

theorem settleEntries_of_entriesLiteral : ∀ entries : List (String × Value), entriesOrdered entries = true →
    entriesLiteral entries = true → settleEntries valueOf entries = some entries
  | [], _, _ => rfl
  | (_, v) :: rest, hordered, hliteral => by
      simp only [entriesOrdered, entriesLiteral, Bool.and_eq_true] at hordered hliteral
      simp [settleEntries, settleWith_of_isLiteral v hordered.1 hliteral.1,
        settleEntries_of_entriesLiteral rest hordered.2 hliteral.2]

end

/-! ## What is not -/

/-- No text has an object as its value that stands for a text. -/
theorem parseWithin?_ne (depth : ℕ) (s t : String) :
    Json.parseWithin? depth s ≠ some (.object [(embeddedName, .text t)]) := by
  induction depth generalizing s with
  | zero => exact fun h => nomatch h
  | succ depth ih =>
      intro h
      rw [Json.parseWithin?, Option.bind_eq_some_iff] at h
      obtain ⟨document, -, h⟩ := h
      cases document with
      | object entries =>
          rw [settleWith] at h
          split at h
          · obtain ⟨inner, -, hinner⟩ := Option.bind_eq_some_iff.mp h
            exact ih inner hinner
          · rename_i hplain
            obtain ⟨settled, hsettled, heq⟩ := Option.map_eq_some_iff.mp h
            rw [Value.object.injEq] at heq
            cases entries with
            | nil =>
                cases hsettled
                cases heq
            | cons e rest =>
                have hname : e.1 ∈ settled.map (·.1) := by
                  rw [names_settleEntries hsettled]
                  exact List.mem_cons_self
                have hfirst := NameMap.isSome_get?_ofList hname
                rw [NameMap.get?, heq, NameMap.lookup_cons_eq] at hfirst
                refine hplain (beq_iff_eq.mpr ?_)
                by_contra hne
                simp [hne] at hfirst
      | array items =>
          obtain ⟨_, -, heq⟩ := Option.map_eq_some_iff.mp h
          cases heq
      | _ => cases h

/-- The object that stands for a text is not what the text stands for. -/
theorem embeddedText?_ne (hplain : isEmbedding entries = true) :
    (embeddedText? entries).bind Json.parse? ≠ some (.object entries) := by
  intro h
  obtain ⟨s, htext, hs⟩ := Option.bind_eq_some_iff.mp h
  unfold embeddedText? at htext
  split at htext
  · rename_i name text
    rw [isEmbedding, beq_iff_eq] at hplain
    subst hplain
    exact parseWithin?_ne _ _ _ hs
  · cases htext

mutual

theorem isLiteral_of_settled? : ∀ v : Value, v.isOrdered = true → v.settleWith Json.parse? = some v →
    v.isLiteral = true
  | .null, _, _ | .bool _, _, _ | .int _, _, _ | .real _, _, _ | .text _, _, _ => rfl
  | .array items, hordered, h => by
      obtain ⟨settled, hsettled, heq⟩ := Option.map_eq_some_iff.mp h
      cases heq
      exact areLiteral_of_settled? items hordered hsettled
  | .object entries, hordered, h => by
      simp only [isOrdered, Bool.and_eq_true, decide_eq_true_eq] at hordered
      rw [settleWith] at h
      split at h
      · rename_i hplain
        exact absurd h (embeddedText?_ne hplain)
      · rename_i hplain
        obtain ⟨settled, hsettled, heq⟩ := Option.map_eq_some_iff.mp h
        rw [NameMap.entries_ofList (increasing_settleEntries hsettled hordered.1)] at heq
        cases heq
        rw [isLiteral, entriesLiteral_of_settled? entries hordered.2 hsettled]
        simp [hplain]

theorem areLiteral_of_settled? : ∀ items : List Value, areOrdered items = true →
    settleItems Json.parse? items = some items → areLiteral items = true
  | [], _, _ => rfl
  | v :: vs, hordered, h => by
      simp only [areOrdered, Bool.and_eq_true] at hordered
      simp only [settleItems, Option.bind_eq_bind, Option.bind_eq_some_iff, Option.pure_def, Option.some.injEq,
        List.cons.injEq] at h
      obtain ⟨_, hv, _, hvs, rfl, rfl⟩ := h
      rw [areLiteral, isLiteral_of_settled? _ hordered.1 hv, areLiteral_of_settled? _ hordered.2 hvs, Bool.and_self]

theorem entriesLiteral_of_settled? : ∀ entries : List (String × Value), entriesOrdered entries = true →
    settleEntries Json.parse? entries = some entries → entriesLiteral entries = true
  | [], _, _ => rfl
  | (_, v) :: rest, hordered, h => by
      simp only [entriesOrdered, Bool.and_eq_true] at hordered
      simp only [settleEntries, Option.bind_eq_bind, Option.bind_eq_some_iff, Option.pure_def, Option.some.injEq,
        List.cons.injEq, Prod.mk.injEq] at h
      obtain ⟨_, hv, _, hrest, ⟨-, rfl⟩, rfl⟩ := h
      rw [entriesLiteral, isLiteral_of_settled? _ hordered.1 hv, entriesLiteral_of_settled? _ hordered.2 hrest,
        Bool.and_self]

end

/-- A value in order is settled if and only if it is literal. -/
theorem settled?_eq_self_iff {v : Value} (h : v.isOrdered = true) : v.settled? = some v ↔ v.isLiteral = true :=
  ⟨isLiteral_of_settled? v h, settleWith_of_isLiteral v h⟩

end Value

end TableGate
