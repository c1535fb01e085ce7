import Mathlib.Data.List.Perm.Subperm
import TableGate.NameMap

/-! # What stands under a name

A map is determined by what stands under its names. -/

namespace TableGate.NameMap

variable {α : Type}

theorem lookup_cons_eq (m n : String) (x : α) (rest : List (String × α)) :
    ((m, x) :: rest).lookup n = if n = m then some x else rest.lookup n := by
  by_cases hn : n = m
  · rw [hn, List.lookup_cons_self, if_pos rfl]
  · rw [List.lookup_cons, beq_eq_false_iff_ne.mpr hn, if_neg hn]

theorem lookup_put (name n : String) (value : α) (entries : List (String × α)) :
    (put name value entries).lookup n = if n = name then some value else entries.lookup n := by
  induction entries with
  | nil => rw [put, lookup_cons_eq]
  | cons head rest ih =>
      obtain ⟨m, x⟩ := head
      unfold put
      split
      · rw [lookup_cons_eq]
      · rename_i hge
        split
        · rename_i hlt
          rw [lookup_cons_eq, lookup_cons_eq, ih]
          by_cases hn : n = m
          · have hne : m ≠ name := fun h => String.lt_irrefl _ (h ▸ hlt)
            simp [hn, hne]
          · simp [hn]
        · rename_i hle
          have hsame : name = m := String.le_antisymm (String.not_lt.mp hle) (String.not_lt.mp hge)
          rw [lookup_cons_eq, lookup_cons_eq, ← hsame]
          by_cases hn : n = name <;> simp [hn]

@[simp] theorem get?_insert (m : NameMap α) (name n : String) (value : α) :
    (m.insert name value).get? n = if n = name then some value else m.get? n :=
  lookup_put name n value m.entries

/-- What stands under a name has been put there. -/
theorem mem_of_get?_foldl_insert {entries : List (String × α)} {m : NameMap α} {n : String} {x : α}
    (h : (entries.foldl (fun m e => m.insert e.1 e.2) m).get? n = some x) :
    (n, x) ∈ entries ∨ m.get? n = some x := by
  induction entries generalizing m with
  | nil => exact .inr h
  | cons e entries ih =>
      rcases ih h with hmem | hget
      · exact .inl (List.mem_cons_of_mem e hmem)
      · rw [get?_insert] at hget
        split at hget
        · rename_i hname
          cases hget
          exact .inl (hname ▸ List.mem_cons_self)
        · exact .inr hget

theorem mem_of_get?_ofList {entries : List (String × α)} {n : String} {x : α}
    (h : (ofList entries).get? n = some x) : (n, x) ∈ entries := by
  rcases mem_of_get?_foldl_insert h with hmem | hempty
  · exact hmem
  · cases hempty

/-- Under the name of every entry there is something. -/
theorem isSome_get?_foldl_insert {entries : List (String × α)} {m : NameMap α} {n : String}
    (h : n ∈ entries.map (·.1) ∨ (m.get? n).isSome) :
    ((entries.foldl (fun m e => m.insert e.1 e.2) m).get? n).isSome := by
  induction entries generalizing m with
  | nil => exact h.resolve_left List.not_mem_nil
  | cons e entries ih =>
      refine ih ?_
      rw [List.map_cons, List.mem_cons] at h
      by_cases hn : n = e.1
      · exact .inr (by simp [hn])
      · exact h.imp (fun hmem => hmem.resolve_left hn) fun hm => by simpa [hn] using hm

theorem isSome_get?_ofList {entries : List (String × α)} {n : String} (h : n ∈ entries.map (·.1)) :
    ((ofList entries).get? n).isSome :=
  isSome_get?_foldl_insert (.inl h)

theorem mem_values {m : NameMap α} {n : String} {x : α} (h : m.get? n = some x) : x ∈ m.values := by
  obtain ⟨front, back, hentries, -⟩ := List.lookup_eq_some_iff.mp h
  rw [values, hentries]
  simp

theorem lookup_filter_ne (name n : String) (entries : List (String × α)) :
    (entries.filter fun e => e.1 != name).lookup n = if n = name then none else entries.lookup n := by
  induction entries with
  | nil => simp
  | cons head rest ih =>
      obtain ⟨k, x⟩ := head
      by_cases hk : k = name
      · rw [List.filter_cons_of_neg (by simp [hk]), ih, lookup_cons_eq]
        by_cases hn : n = name <;> simp [hn, hk]
      · rw [List.filter_cons_of_pos (by simp [hk]), lookup_cons_eq, lookup_cons_eq, ih]
        by_cases hn : n = k
        · simp [hn, hk]
        · simp [hn]

@[simp] theorem get?_erase (m : NameMap α) (name n : String) :
    (m.erase name).get? n = if n = name then none else m.get? n :=
  lookup_filter_ne name n m.entries

/-- Nothing stands under a name before all others. -/
theorem lookup_of_lt {n : String} {entries : List (String × α)} (h : ∀ e ∈ entries, n < e.1) :
    entries.lookup n = none := by
  rw [List.lookup_eq_none_iff]
  intro e he
  rw [bne_iff_ne]
  rintro rfl
  exact String.lt_irrefl _ (h e he)

theorem le_of_lookup {m n : String} {x y : α} {rest : List (String × α)}
    (hrest : ∀ e ∈ rest, m < e.1) (h : ((m, x) :: rest).lookup n = some y) : m ≤ n := by
  rw [lookup_cons_eq] at h
  split at h
  · rename_i hsame
    exact hsame ▸ String.le_refl _
  · refine String.not_lt.mp fun hlt => ?_
    rw [lookup_of_lt fun e he => String.lt_trans hlt (hrest e he)] at h
    cases h

theorem eq_of_lookup {xs ys : List (String × α)} (hxs : xs.Pairwise fun a b => a.1 < b.1)
    (hys : ys.Pairwise fun a b => a.1 < b.1) (h : ∀ n, xs.lookup n = ys.lookup n) : xs = ys := by
  induction xs generalizing ys with
  | nil =>
      cases ys with
      | nil => rfl
      | cons head rest =>
          have hhead := h head.1
          rw [List.lookup_cons_self] at hhead
          cases hhead
  | cons head rest ih =>
      obtain ⟨m, x⟩ := head
      obtain ⟨hhead, hrest⟩ := List.pairwise_cons.mp hxs
      have hfirst : ys.lookup m = some x := by rw [← h, List.lookup_cons_self]
      cases ys with
      | nil => cases hfirst
      | cons other others =>
          obtain ⟨n, y⟩ := other
          obtain ⟨hother, hothers⟩ := List.pairwise_cons.mp hys
          have hback : ((m, x) :: rest).lookup n = some y := by rw [h, List.lookup_cons_self]
          have hname : m = n := String.le_antisymm (le_of_lookup hhead hback)
            (le_of_lookup hother hfirst)
          subst hname
          rw [List.lookup_cons_self, Option.some.injEq] at hfirst
          subst hfirst
          rw [ih hrest hothers fun k => ?_]
          by_cases hk : k = m
          · rw [hk, lookup_of_lt hhead, lookup_of_lt hother]
          · have hsame := h k
            rwa [lookup_cons_eq, lookup_cons_eq, if_neg hk, if_neg hk] at hsame

/-- Maps with the same values under all names are the same. -/
theorem ext_get? {m n : NameMap α} (h : ∀ name, m.get? name = n.get? name) : m = n := by
  obtain ⟨xs, hxs⟩ := m
  obtain ⟨ys, hys⟩ := n
  have hentries : xs = ys := eq_of_lookup hxs hys h
  subst hentries
  rfl

/-! ## Entries that are in order -/

theorem put_of_forall_lt {name : String} {value : α} {entries : List (String × α)}
    (h : ∀ e ∈ entries, e.1 < name) : put name value entries = entries ++ [(name, value)] := by
  induction entries with
  | nil => rfl
  | cons e rest ih =>
      rw [List.forall_mem_cons] at h
      rw [put, if_neg (String.lt_asymm h.1), if_pos h.1, ih h.2, List.cons_append]

theorem entries_foldl_insert {entries : List (String × α)} {m : NameMap α}
    (h : (m.entries ++ entries).Pairwise fun a b => a.1 < b.1) :
    (entries.foldl (fun m e => m.insert e.1 e.2) m).entries = m.entries ++ entries := by
  induction entries generalizing m with
  | nil => simp
  | cons e rest ih =>
      have hput : (m.insert e.1 e.2).entries = m.entries ++ [e] :=
        put_of_forall_lt fun d hd => (List.pairwise_append.mp h).2.2 d hd e List.mem_cons_self
      rw [List.append_cons, ← hput] at h
      rw [List.foldl_cons, ih h, hput, ← List.append_cons]

/-- Entries that are in order stay as they are. -/
theorem entries_ofList {entries : List (String × α)} (h : entries.Pairwise fun a b => a.1 < b.1) :
    (ofList entries).entries = entries :=
  entries_foldl_insert h

@[simp] theorem ofList_entries (m : NameMap α) : ofList m.entries = m := by
  have hentries := entries_ofList m.increasing
  generalize ofList m.entries = n at hentries
  cases n
  cases m
  cases hentries
  rfl

/-! ## Names -/

theorem contains_eq (m : NameMap α) (name : String) : m.contains name = m.names.contains name := by
  rw [contains, get?, names]
  induction m.entries with
  | nil => rfl
  | cons e entries ih =>
      rw [List.lookup_cons, List.map_cons, List.contains_cons, ← ih]
      cases name == e.1 <;> rfl

theorem size_eq (m : NameMap α) : m.size = m.names.length := by
  rw [size, names, List.length_map]

theorem pairwise_names (m : NameMap α) : m.names.Pairwise (· < ·) :=
  List.pairwise_map.mpr m.increasing

theorem nodup_names (m : NameMap α) : m.names.Nodup :=
  m.pairwise_names.imp String.ne_of_lt

theorem names_eq_of_perm {m n : NameMap α} (h : m.names.Perm n.names) : m.names = n.names :=
  h.eq_of_pairwise (fun _ _ _ _ hab hba => (String.lt_asymm hab hba).elim) m.pairwise_names n.pairwise_names

/-- Of two maps of the same size the one has the names of the other if it has each of them. -/
theorem names_eq_of_subset {m n : NameMap α} (hsize : m.size = n.size)
    (h : ∀ name ∈ n.names, name ∈ m.names) : m.names = n.names := by
  rw [size_eq, size_eq] at hsize
  have hperm : n.names.Perm m.names := (n.nodup_names.subperm h).perm_of_length_le (Nat.le_of_eq hsize)
  exact names_eq_of_perm hperm.symm

theorem names_eq_iff {m n : NameMap α} :
    m.names = n.names ↔ ∀ name, m.contains name = n.contains name := by
  constructor
  · intro h name
    rw [contains_eq, contains_eq, h]
  · intro h
    refine names_eq_of_perm ((List.perm_ext_iff_of_nodup m.nodup_names n.nodup_names).mpr fun name => ?_)
    rw [← List.contains_iff_mem, ← List.contains_iff_mem, ← contains_eq, ← contains_eq, h name]

theorem isEmpty_iff {m : NameMap α} : m.isEmpty = true ↔ m.names = [] := by
  rw [isEmpty, List.isEmpty_iff, names, List.map_eq_nil_iff]

/-- Under the name of every entry there stands its value. -/
theorem get?_of_mem {m : NameMap α} {e : String × α} (he : e ∈ m.entries) : m.get? e.1 = some e.2 := by
  obtain ⟨front, back, hsplit⟩ := List.append_of_mem he
  have hnodup : (m.entries.map (·.1)).Nodup := m.nodup_names
  rw [hsplit, List.map_append, List.map_cons] at hnodup
  rw [get?, List.lookup_eq_some_iff]
  refine ⟨front, back, hsplit, fun d hd => ?_⟩
  rw [bne_iff_ne]
  exact ((List.nodup_append.mp hnodup).2.2 d.1 (List.mem_map_of_mem hd) e.1 List.mem_cons_self).symm

end TableGate.NameMap
