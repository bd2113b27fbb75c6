/-
Finite maps as lists of entries. An entry keeps the place it was first given, and no key occurs twice; what a map
says is read through `find?`, and `find?_insert` and `find?_erase` are its laws.
-/
namespace SensorNode

/-- entries with pairwise distinct keys, in the order in which the keys came -/
structure Keyed (κ ν : Type) where
  entries : List (κ × ν)
  distinct : (entries.map Prod.fst).Nodup := by simp

namespace Keyed

variable {κ ν : Type}

/-- the map without entries -/
def empty : Keyed κ ν := { entries := [] }

instance : EmptyCollection (Keyed κ ν) := ⟨empty⟩

instance : Inhabited (Keyed κ ν) := ⟨empty⟩

/-- the keys, in order -/
def keys (m : Keyed κ ν) : List κ := m.entries.map Prod.fst

/-- the values, in the order of their keys -/
def values (m : Keyed κ ν) : List ν := m.entries.map Prod.snd

/-- number of entries -/
def size (m : Keyed κ ν) : Nat := m.entries.length

def isEmpty (m : Keyed κ ν) : Bool := m.entries.isEmpty

variable [DecidableEq κ]

/-- the value under `k` -/
def find? (m : Keyed κ ν) (k : κ) : Option ν :=
  (m.entries.find? fun e => e.1 = k).map Prod.snd

def contains (m : Keyed κ ν) (k : κ) : Bool := (m.find? k).isSome

theorem find?_isSome_iff (m : Keyed κ ν) (k : κ) : (m.find? k).isSome ↔ k ∈ m.keys := by
  simp [find?, keys]

theorem contains_iff (m : Keyed κ ν) (k : κ) : m.contains k = true ↔ k ∈ m.keys :=
  m.find?_isSome_iff k

theorem map_fst_replace (l : List (κ × ν)) (k : κ) (v : ν) :
    (l.map fun e => if e.1 = k then (k, v) else e).map Prod.fst = l.map Prod.fst := by
  induction l with
  | nil => rfl
  | cons e l ih =>
    simp only [List.map_cons, ih]
    split <;> simp_all

/-- puts `v` under `k`, in the old place if `k` had an entry and else at the end -/
def insert (m : Keyed κ ν) (k : κ) (v : ν) : Keyed κ ν :=
  if h : k ∈ m.keys then
    { entries := m.entries.map fun e => if e.1 = k then (k, v) else e
      distinct := by rw [map_fst_replace]; exact m.distinct }
  else
    { entries := m.entries ++ [(k, v)]
      distinct := by
        have := m.distinct
        simp only [List.map_append, List.map_cons, List.map_nil]
        rw [List.nodup_append]
        refine ⟨this, by simp, ?_⟩
        intro a ha b hb
        simp only [List.mem_singleton] at hb
        subst hb
        intro hab
        subst hab
        exact h ha }

/-- drops the entry of `k` -/
def erase (m : Keyed κ ν) (k : κ) : Keyed κ ν where
  entries := m.entries.filter fun e => e.1 ≠ k
  distinct := m.distinct.sublist (List.filter_sublist.map _)

/-- the entries whose key and value pass `keep` -/
def filter (m : Keyed κ ν) (keep : κ → ν → Bool) : Keyed κ ν where
  entries := m.entries.filter fun e => keep e.1 e.2
  distinct := m.distinct.sublist (List.filter_sublist.map _)

/-- later entries win over earlier ones with their key -/
def ofList (l : List (κ × ν)) : Keyed κ ν := l.foldl (fun m e => m.insert e.1 e.2) ∅

/-- every value replaced by its image; keys and order stay -/
def mapValues {μ : Type} (m : Keyed κ ν) (f : ν → μ) : Keyed κ μ where
  entries := m.entries.map fun e => (e.1, f e.2)
  distinct := by
    have : ((m.entries.map fun e => (e.1, f e.2)).map Prod.fst) = m.entries.map Prod.fst := by simp
    rw [this]
    exact m.distinct

/-- the images of the values that have one, under their keys -/
def filterMapValues {μ : Type} (m : Keyed κ ν) (f : ν → Option μ) : Keyed κ μ where
  entries := m.entries.filterMap fun e => (f e.2).map fun v => (e.1, v)
  distinct := by
    refine m.distinct.sublist ?_
    generalize m.entries = l
    induction l with
    | nil => simp
    | cons e l ih =>
      cases h : f e.2 with
      | none =>
        simp only [List.filterMap_cons, h, Option.map_none, List.map_cons]
        exact ih.trans (List.sublist_cons_self _ _)
      | some v =>
        simp only [List.filterMap_cons, h, Option.map_some, List.map_cons]
        exact ih.cons_cons _

/-- the value under `k`, if there is one, replaced by its image -/
def modify (m : Keyed κ ν) (k : κ) (f : ν → ν) : Keyed κ ν :=
  match m.find? k with
  | some v => m.insert k (f v)
  | none => m

@[simp] theorem find?_empty (k : κ) : (∅ : Keyed κ ν).find? k = none := rfl

theorem find?_insert (m : Keyed κ ν) (k k' : κ) (v : ν) :
    (m.insert k v).find? k' = if k' = k then some v else m.find? k' := by
  unfold insert find?
  by_cases h : k ∈ m.keys
  · simp only [h, dite_true]
    unfold keys at h
    generalize m.entries = l at h
    induction l with
    | nil => simp at h
    | cons e l ih =>
      by_cases he : e.1 = k
      · by_cases hk : k' = k
        · simp [he, hk]
        · have : ¬ k = k' := fun x => hk x.symm
          simp only [List.map_cons, he, if_true, List.find?_cons, this, decide_false]
          by_cases hl : k ∈ l.map Prod.fst
          · simpa [hk, he, this] using ih hl
          · have same : (l.map fun e => if e.1 = k then (k, v) else e) = l := by
              rw [List.map_congr_left (g := id)]
              · simp
              · intro x hx
                have : x.1 ≠ k := fun hxk => hl (hxk ▸ List.mem_map_of_mem hx)
                simp [this]
            rw [same]
            simp [hk]
      · have hl : k ∈ l.map Prod.fst := by
          simp only [List.map_cons, List.mem_cons] at h
          exact h.resolve_left fun x => he x.symm
        simp only [List.map_cons, he, if_false, List.find?_cons]
        by_cases hk : e.1 = k'
        · have : ¬ k' = k := fun x => he (hk.trans x)
          simp [hk, this]
        · simp only [hk, decide_false]
          exact ih hl
  · simp only [h, dite_false]
    unfold keys at h
    by_cases hk : k' = k
    · subst hk
      have : m.entries.find? (fun e => e.1 = k') = none := by
        rw [List.find?_eq_none]
        intro x hx
        simp only [decide_eq_true_eq]
        exact fun e => h (e ▸ List.mem_map_of_mem hx)
      simp [List.find?_append, this]
    · have : ¬ k = k' := fun x => hk x.symm
      simp [List.find?_append, hk, this]

theorem find?_erase (m : Keyed κ ν) (k k' : κ) :
    (m.erase k).find? k' = if k' = k then none else m.find? k' := by
  simp only [erase, find?, List.find?_filter]
  by_cases hk : k' = k
  · subst hk
    simp
  · simp only [hk, if_false]
    congr 2
    funext e
    by_cases he : e.1 = k' <;> simp [he, hk]

theorem keys_insert (m : Keyed κ ν) (k : κ) (v : ν) :
    (m.insert k v).keys = if k ∈ m.keys then m.keys else m.keys ++ [k] := by
  unfold insert
  split
  · simp only [keys]
    exact map_fst_replace _ _ _
  · simp [keys]

end Keyed

end SensorNode
