/-
Finite maps, continued. An entry is in the list of a map exactly when `find?` says so; up to order, the values of a map
are the value under a key and the values of the map without that key. Values that are put under their own keys stay there
(`IsBy`), and the images of values change as the values do (`mapValues_insert`, `mapValues_erase`).
-/
import Mathlib.Tactic
import SensorNode.Keyed

namespace SensorNode.Keyed

variable {κ ν : Type} [DecidableEq κ]

theorem mem_entries_iff (m : Keyed κ ν) (k : κ) (v : ν) : (k, v) ∈ m.entries ↔ m.find? k = some v := by
  obtain ⟨l, hl⟩ := m
  simp only [find?]
  induction l with
  | nil => simp
  | cons e l ih =>
    simp only [List.map_cons, List.nodup_cons] at hl
    have ih := ih hl.2
    by_cases he : e.1 = k
    · have hk : (k, v) ∉ l := fun hm => hl.1 (he ▸ List.mem_map_of_mem hm)
      simp only [List.mem_cons, hk, or_false, List.find?_cons, he, decide_true, Option.map_some, Option.some.injEq]
      constructor
      · rintro rfl; rfl
      · rintro rfl; exact Prod.ext he.symm rfl
    · have hk : (k, v) ≠ e := fun h => he (h ▸ rfl)
      simpa only [List.mem_cons, hk, false_or, List.find?_cons, he, decide_false] using ih

theorem mem_values_iff (m : Keyed κ ν) (v : ν) : v ∈ m.values ↔ ∃ k, m.find? k = some v := by
  simp only [values, List.mem_map, Prod.exists, mem_entries_iff, exists_eq_right]

theorem find?_modify (m : Keyed κ ν) (k k' : κ) (f : ν → ν) :
    (m.modify k f).find? k' = if k' = k then (m.find? k).map f else m.find? k' := by
  unfold modify
  cases hm : m.find? k with
  | none =>
    split_ifs with hk
    · rw [hk, hm]; rfl
    · rfl
  | some v => rw [find?_insert]; rfl

theorem find?_filterMapValues {μ : Type} (m : Keyed κ ν) (f : ν → Option μ) (k : κ) :
    (m.filterMapValues f).find? k = (m.find? k).bind f := by
  ext v
  rw [← mem_entries_iff]
  simp only [filterMapValues, List.mem_filterMap, Prod.exists, Option.map_eq_some_iff, Prod.mk.injEq, mem_entries_iff,
    Option.bind_eq_some_iff]
  constructor
  · rintro ⟨k', u, hu, w, hw, rfl, rfl⟩
    exact ⟨u, hu, hw⟩
  · rintro ⟨u, hu, hw⟩
    exact ⟨k, u, hu, v, hw, rfl, rfl⟩

theorem entries_insert_of_not_mem (m : Keyed κ ν) {k : κ} (h : k ∉ m.keys) (v : ν) :
    (m.insert k v).entries = m.entries ++ [(k, v)] := by
  unfold insert
  rw [dif_neg h]

omit [DecidableEq κ] in
theorem ext_entries {m m' : Keyed κ ν} (h : m.entries = m'.entries) : m = m' := by
  obtain ⟨l, hl⟩ := m
  cases h
  rfl

theorem contains_of_find? {m : Keyed κ ν} {k : κ} {v : ν} (h : m.find? k = some v) : m.contains k = true := by
  rw [contains, h]
  rfl

theorem contains_congr {m : Keyed κ ν} {μ : Type} {m' : Keyed κ μ} (h : m.keys = m'.keys) (k : κ) :
    m.contains k = m'.contains k := by
  rw [Bool.eq_iff_iff, contains_iff, contains_iff, h]

/-- a map is what it says under each of its keys, in their order -/
theorem entries_eq_keys (m : Keyed κ ν) : m.entries = m.keys.filterMap fun k => (m.find? k).map fun v => (k, v) := by
  unfold keys
  rw [List.filterMap_map]
  refine (List.filterMap_some.symm.trans (List.filterMap_congr fun e he => ?_))
  show some e = (m.find? e.1).map fun v => (e.1, v)
  rw [(m.mem_entries_iff e.1 e.2).1 he]
  rfl

theorem ext_find? {m m' : Keyed κ ν} (hkeys : m.keys = m'.keys) (hfind : ∀ k, m.find? k = m'.find? k) : m = m' := by
  apply ext_entries
  rw [entries_eq_keys m, entries_eq_keys m', hkeys]
  simp only [hfind]

theorem keys_modify (m : Keyed κ ν) (k : κ) (f : ν → ν) : (m.modify k f).keys = m.keys := by
  unfold modify
  cases hm : m.find? k with
  | none => rfl
  | some v => exact (keys_insert m k (f v)).trans (if_pos ((m.contains_iff k).1 (contains_of_find? hm)))

theorem keys_erase (m : Keyed κ ν) (k : κ) : (m.erase k).keys = m.keys.filter (· ≠ k) := by
  unfold keys erase
  rw [List.filter_map]
  rfl

/-- what is there already is put there again -/
theorem insert_of_find? {m : Keyed κ ν} {k : κ} {v : ν} (h : m.find? k = some v) : m.insert k v = m := by
  have hkey : k ∈ m.keys := (m.find?_isSome_iff k).1 (Option.isSome_iff_exists.2 ⟨v, h⟩)
  apply ext_entries
  unfold insert
  rw [dif_pos hkey]
  refine (List.map_congr_left fun e he => ?_).trans (List.map_id _)
  split_ifs with hk
  · have hv : m.find? k = some e.2 := hk ▸ (m.mem_entries_iff e.1 e.2).1 he
    exact Prod.ext hk.symm (Option.some.inj (h.symm.trans hv))
  · rfl

/-- what is not there is dropped -/
theorem erase_of_find? {m : Keyed κ ν} {k : κ} (h : m.find? k = none) : m.erase k = m := by
  apply ext_entries
  refine List.filter_eq_self.2 fun e he => decide_eq_true fun hk => ?_
  have hv : m.find? k = some e.2 := hk ▸ (m.mem_entries_iff e.1 e.2).1 he
  cases h.symm.trans hv

/-! ### Values under their own keys -/

section

variable {key : ν → κ} {m : Keyed κ ν}

/-- every value is under the key that it has itself -/
def IsBy (m : Keyed κ ν) (key : ν → κ) : Prop := ∀ k v, m.find? k = some v → key v = k

theorem isBy_empty : (∅ : Keyed κ ν).IsBy key := by
  intro k v hv
  cases hv

theorem IsBy.insert (h : m.IsBy key) (v : ν) : (m.insert (key v) v).IsBy key := by
  intro k v' hv'
  rw [find?_insert] at hv'
  split_ifs at hv' with hk
  · rw [← Option.some.inj hv', hk]
  · exact h k v' hv'

theorem IsBy.erase (h : m.IsBy key) (k : κ) : (m.erase k).IsBy key := by
  intro k' v hv
  rw [find?_erase] at hv
  split_ifs at hv
  exact h k' v hv

theorem isBy_iff : m.IsBy key ↔ ∀ e ∈ m.entries, key e.2 = e.1 :=
  ⟨fun h e he => h e.1 e.2 ((m.mem_entries_iff e.1 e.2).1 he), fun h k v hv => h (k, v) ((m.mem_entries_iff k v).2 hv)⟩

theorem IsBy.map_values (h : m.IsBy key) : m.values.map key = m.keys := by
  unfold values keys
  rw [List.map_map]
  exact List.map_congr_left (isBy_iff.1 h)

end

/-! ### Images of values -/

section

variable {μ : Type} (m : Keyed κ ν) (f : ν → μ) (k : κ)

theorem mapValues_find? : (m.mapValues f).find? k = (m.find? k).map f := by
  unfold find? mapValues
  rw [List.find?_map, Option.map_map, Option.map_map]
  rfl

omit [DecidableEq κ] in
theorem mapValues_keys : (m.mapValues f).keys = m.keys := by
  unfold keys mapValues
  rw [List.map_map]
  rfl

theorem mapValues_contains : (m.mapValues f).contains k = m.contains k := by
  unfold contains
  rw [mapValues_find?, Option.isSome_map]

theorem mapValues_erase : (m.erase k).mapValues f = (m.mapValues f).erase k := by
  apply ext_entries
  show (m.entries.filter _).map _ = (m.entries.map _).filter _
  rw [List.filter_map]
  rfl

theorem mapValues_insert (v : ν) : (m.insert k v).mapValues f = (m.mapValues f).insert k (f v) := by
  apply ext_entries
  by_cases h : k ∈ m.keys
  · have h' : k ∈ (m.mapValues f).keys := m.mapValues_keys f ▸ h
    unfold insert
    rw [dif_pos h, dif_pos h']
    show (m.entries.map _).map _ = (m.entries.map _).map _
    rw [List.map_map, List.map_map]
    refine List.map_congr_left fun e _ => ?_
    by_cases he : e.1 = k <;> simp [he]
  · have h' : k ∉ (m.mapValues f).keys := m.mapValues_keys f ▸ h
    rw [entries_insert_of_not_mem _ h']
    show (m.insert k v).entries.map _ = m.entries.map _ ++ _
    rw [entries_insert_of_not_mem _ h, List.map_append]
    rfl

end

/-! ### Values up to order -/

theorem values_perm_of_find? (m : Keyed κ ν) (k : κ) (v : ν) (h : m.find? k = some v) :
    m.values.Perm (v :: (m.erase k).values) := by
  obtain ⟨l, hl⟩ := m
  rw [← mem_entries_iff] at h
  simp only [values, erase] at h ⊢
  induction l with
  | nil => simp at h
  | cons e l ih =>
    simp only [List.map_cons, List.nodup_cons] at hl
    rcases List.mem_cons.1 h with rfl | hm
    · have same : l.filter (fun e => decide (e.1 ≠ k)) = l :=
        List.filter_eq_self.2 fun x hx => decide_eq_true fun hk => hl.1 (List.mem_map.2 ⟨x, hx, hk⟩)
      rw [List.filter_cons_of_neg (by simp), same]
      exact List.Perm.refl _
    · have he : e.1 ≠ k := fun hk => hl.1 (List.mem_map.2 ⟨(k, v), hm, hk.symm⟩)
      simp only [List.filter_cons, he, ne_eq, not_false_eq_true, decide_true, if_true, List.map_cons]
      exact ((ih hl.2 hm).cons _).trans (List.Perm.swap _ _ _)

theorem values_erase_of_find? (m : Keyed κ ν) (k : κ) (h : m.find? k = none) : (m.erase k).values = m.values := by
  rw [erase_of_find? h]

theorem erase_insert_values (m : Keyed κ ν) (k : κ) (v : ν) :
    ((m.insert k v).erase k).values = (m.erase k).values := by
  unfold insert
  split_ifs with h
  · simp only [erase, values]
    generalize m.entries = l
    induction l with
    | nil => rfl
    | cons e l ih => by_cases he : e.1 = k <;> simp_all
  · simp [erase, values]

theorem values_insert_perm (m : Keyed κ ν) (k : κ) (v : ν) :
    (m.insert k v).values.Perm (v :: (m.erase k).values) := by
  rw [← erase_insert_values m k v]
  exact values_perm_of_find? _ k v (by simp [find?_insert])

end SensorNode.Keyed
