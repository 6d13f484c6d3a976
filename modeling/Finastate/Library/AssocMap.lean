import Mathlib.Data.List.Basic

/-!
# Association lists as maps

A hash map is an association list in which the first pair with a key counts.
`insert` puts the pair in front and drops the old ones, `erase` drops them,
`extend` inserts the pairs of another map, and reading is `get?`.
-/

namespace AssocMap

variable {κ ν : Type*} [DecidableEq κ]

def get? (m : List (κ × ν)) (k : κ) : Option ν := (m.find? fun p => p.1 = k).map Prod.snd

def erase (m : List (κ × ν)) (k : κ) : List (κ × ν) := m.filter fun p => p.1 ≠ k

def insert (m : List (κ × ν)) (k : κ) (v : ν) : List (κ × ν) := (k, v) :: erase m k

def extend (m items : List (κ × ν)) : List (κ × ν) :=
  items.foldr (fun item m => insert m item.1 item.2) m

@[simp] theorem get?_nil (k : κ) : get? ([] : List (κ × ν)) k = none := rfl

@[simp] theorem get?_cons (p : κ × ν) (m : List (κ × ν)) (k : κ) :
    get? (p :: m) k = if p.1 = k then some p.2 else get? m k := by
  by_cases h : p.1 = k
  · simp [get?, h]
  · simp [get?, h]

theorem get?_erase (m : List (κ × ν)) (k k' : κ) :
    get? (erase m k) k' = if k' = k then none else get? m k' := by
  induction m with
  | nil => simp [erase]
  | cons p m ih =>
      by_cases hp : p.1 = k
      · have herase : erase (p :: m) k = erase m k := by simp [erase, hp]
        rw [herase, ih]
        by_cases hk : k' = k
        · simp [hk]
        · simp [hk, hp, Ne.symm hk]
      · have herase : erase (p :: m) k = p :: erase m k := by simp [erase, hp]
        rw [herase, get?_cons, ih, get?_cons]
        by_cases hk : k' = k
        · simp [hk, hp]
        · simp [hk]

@[simp] theorem get?_insert_self (m : List (κ × ν)) (k : κ) (v : ν) :
    get? (insert m k v) k = some v := by
  simp [insert]

theorem get?_insert (m : List (κ × ν)) (k k' : κ) (v : ν) :
    get? (insert m k v) k' = if k' = k then some v else get? m k' := by
  rw [insert, get?_cons, get?_erase]
  by_cases hk : k' = k
  · simp [hk]
  · simp [hk, Ne.symm hk]

theorem get?_extend (m items : List (κ × ν)) (k : κ) :
    get? (extend m items) k = (get? items k).or (get? m k) := by
  induction items with
  | nil => rfl
  | cons p items ih =>
      have hext : extend m (p :: items) = insert (extend m items) p.1 p.2 := rfl
      rw [hext, get?_insert, get?_cons, ih]
      by_cases hk : p.1 = k
      · simp [hk]
      · simp [hk, Ne.symm hk]

theorem mem_of_get?_eq_some {m : List (κ × ν)} {k : κ} {v : ν} (h : get? m k = some v) :
    (k, v) ∈ m := by
  induction m with
  | nil => cases h
  | cons p m ih =>
      rw [get?_cons] at h
      by_cases hp : p.1 = k
      · rw [if_pos hp] at h
        cases h
        exact List.mem_cons.2 (Or.inl (by rw [← hp]))
      · rw [if_neg hp] at h
        exact List.mem_cons_of_mem p (ih h)

/-- A key of the list can be read. -/
theorem exists_get?_of_mem {m : List (κ × ν)} {p : κ × ν} (h : p ∈ m) :
    ∃ v, get? m p.1 = some v := by
  have hfound : (m.find? fun q => q.1 = p.1).isSome :=
    List.find?_isSome.2 ⟨p, h, by simp⟩
  obtain ⟨q, hq⟩ := Option.isSome_iff_exists.1 hfound
  exact ⟨q.2, by rw [get?, hq]; rfl⟩

theorem mem_insert_iff {m : List (κ × ν)} {k : κ} {v : ν} {p : κ × ν} :
    p ∈ insert m k v ↔ p = (k, v) ∨ p ∈ m ∧ p.1 ≠ k := by
  simp [insert, erase]

theorem mem_insert {m : List (κ × ν)} {k : κ} {v : ν} {p : κ × ν}
    (h : p ∈ insert m k v) : p = (k, v) ∨ p ∈ m :=
  (mem_insert_iff.1 h).imp_right And.left

theorem mem_extend {m items : List (κ × ν)} {p : κ × ν} (h : p ∈ extend m items) :
    p ∈ items ∨ p ∈ m := by
  induction items with
  | nil => exact Or.inr h
  | cons item items ih =>
      rcases mem_insert h with rfl | hrest
      · exact Or.inl List.mem_cons_self
      · exact (ih hrest).imp_left (List.mem_cons_of_mem item)

theorem nodup_keys_insert {m : List (κ × ν)} (k : κ) (v : ν)
    (h : (m.map Prod.fst).Nodup) : ((insert m k v).map Prod.fst).Nodup := by
  rw [insert, List.map_cons, List.nodup_cons]
  constructor
  · simp [erase]
  · exact h.sublist (List.filter_sublist.map _)

/-- In a list without repeated keys reading is membership. -/
theorem get?_eq_some_iff {m : List (κ × ν)} (h : (m.map Prod.fst).Nodup) {k : κ} {v : ν} :
    get? m k = some v ↔ (k, v) ∈ m := by
  constructor
  · exact mem_of_get?_eq_some
  · intro hmem
    induction m with
    | nil => cases hmem
    | cons p m ih =>
        obtain ⟨hp, hm⟩ := List.nodup_cons.1 h
        rw [get?_cons]
        rcases List.mem_cons.1 hmem with rfl | hmem
        · simp
        · have hne : p.1 ≠ k := fun hk => hp (List.mem_map.2 ⟨(k, v), hmem, hk.symm⟩)
          rw [if_neg hne]
          exact ih hm hmem

theorem get?_congr {m m' : List (κ × ν)} (h : (m.map Prod.fst).Nodup)
    (h' : (m'.map Prod.fst).Nodup) (hmem : ∀ p, p ∈ m ↔ p ∈ m') (k : κ) :
    get? m k = get? m' k := by
  apply Option.ext
  intro v
  rw [get?_eq_some_iff h, get?_eq_some_iff h', hmem]

/-- Inserting the pairs of a list one by one. -/
theorem mem_foldl_insert {m entries : List (κ × ν)} (h : (entries.map Prod.fst).Nodup)
    {p : κ × ν} :
    p ∈ entries.foldl (fun m e => insert m e.1 e.2) m ↔
      p ∈ entries ∨ p ∈ m ∧ p.1 ∉ entries.map Prod.fst := by
  induction entries generalizing m with
  | nil => simp
  | cons e entries ih =>
      obtain ⟨he, hentries⟩ := List.nodup_cons.1 h
      rw [List.foldl_cons, ih hentries, mem_insert_iff, List.mem_cons, List.map_cons,
        List.mem_cons]
      constructor
      · rintro (hp | ⟨rfl | ⟨hp, hne⟩, hnot⟩)
        · exact Or.inl (Or.inr hp)
        · exact Or.inl (Or.inl rfl)
        · exact Or.inr ⟨hp, fun hor => hor.elim hne hnot⟩
      · rintro ((rfl | hp) | ⟨hp, hnot⟩)
        · exact Or.inr ⟨Or.inl rfl, he⟩
        · exact Or.inl hp
        · exact Or.inr ⟨Or.inr ⟨hp, fun h => hnot (Or.inl h)⟩, fun h => hnot (Or.inr h)⟩

theorem nodup_keys_foldl_insert {m : List (κ × ν)} (h : (m.map Prod.fst).Nodup)
    (entries : List (κ × ν)) :
    ((entries.foldl (fun m e => insert m e.1 e.2) m).map Prod.fst).Nodup := by
  induction entries generalizing m with
  | nil => exact h
  | cons e entries ih => exact ih (nodup_keys_insert e.1 e.2 h)

/-- The second map has all that the first one has. -/
def Extends (m m' : List (κ × ν)) : Prop := ∀ k v, get? m k = some v → get? m' k = some v

namespace Extends

variable {m : List (κ × ν)}

theorem refl (m : List (κ × ν)) : Extends m m := fun _ _ h => h

/-- A pair that does not change an old one may be inserted. -/
theorem insert {k : κ} {v : ν} (h : ∀ v', get? m k = some v' → v' = v) :
    Extends m (AssocMap.insert m k v) := by
  intro k' v' hget
  rw [get?_insert]
  split
  · next heq =>
    rw [h v' (heq ▸ hget)]
  · exact hget

end Extends

/-- The values change in place, each depending on its key. -/
def mapValues {κ : Type*} (f : κ → ν → ν) (m : List (κ × ν)) : List (κ × ν) :=
  m.map fun p => (p.1, f p.1 p.2)

@[simp] theorem keys_mapValues {κ : Type*} (f : κ → ν → ν) (m : List (κ × ν)) :
    (mapValues f m).map Prod.fst = m.map Prod.fst := by
  simp [mapValues]

theorem mem_mapValues {κ : Type*} {f : κ → ν → ν} {m : List (κ × ν)} {k : κ} {v : ν} :
    (k, v) ∈ mapValues f m ↔ ∃ w, (k, w) ∈ m ∧ f k w = v := by
  simp [mapValues]

@[simp] theorem get?_mapValues (f : κ → ν → ν) (m : List (κ × ν)) (k : κ) :
    get? (mapValues f m) k = (get? m k).map (f k) := by
  induction m with
  | nil => rfl
  | cons p m ih =>
      have hcons : mapValues f (p :: m) = (p.1, f p.1 p.2) :: mapValues f m := rfl
      rw [hcons, get?_cons, get?_cons, ih]
      split
      · next heq => rw [heq]; rfl
      · rfl

end AssocMap
