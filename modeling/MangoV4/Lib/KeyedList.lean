/-
  MangoV4.Lib.KeyedList

  Lists whose elements carry distinct keys, as finite maps.

  `MapOf key os m` says that the finite map `m` has exactly the elements of
  `os`, each under its own key.  Adding, replacing and dropping an element of
  the list are `insert` and `erase` on the map.
-/

import Mathlib.Data.Finmap

namespace MangoV4.Lib

open List

variable {κ α : Type} [DecidableEq κ] (key : α → κ)

/-- The map has the elements of the list, each under its key. -/
def MapOf (os : List α) (m : Finmap fun _ : κ => α) : Prop :=
  ∀ k o, m.lookup k = some o ↔ o ∈ os ∧ key o = k

namespace MapOf

variable {key} {os os' : List α} {m m' : Finmap fun _ : κ => α} {x o : α}

theorem unique (h : MapOf key os m) (h' : MapOf key os m') : m = m' := by
  refine Finmap.ext_lookup fun k => Option.ext fun o => ?_
  rw [h k o, h' k o]

theorem perm (h : MapOf key os m) (hp : os.Perm os') : MapOf key os' m := by
  intro k o
  rw [h k o, hp.mem_iff]

theorem lookup_eq_some (h : MapOf key os m) (ho : o ∈ os) : m.lookup (key o) = some o :=
  (h (key o) o).mpr ⟨ho, rfl⟩

theorem lookup_eq_none (h : MapOf key os m) {k : κ} (hk : k ∉ os.map key) : m.lookup k = none := by
  rw [Option.eq_none_iff_forall_not_mem]
  intro o ho
  obtain ⟨hmem, rfl⟩ := (h k o).mp ho
  exact hk (mem_map_of_mem hmem)

protected theorem nil : MapOf key [] ∅ := by
  intro k o
  simp

/-- An element with a new key. -/
theorem insert (h : MapOf key os m) (hx : key x ∉ os.map key) :
    MapOf key (x :: os) (m.insert (key x) x) := by
  intro k o
  by_cases hk : k = key x
  · subst hk
    rw [Finmap.lookup_insert, Option.some.injEq]
    constructor
    · rintro rfl
      exact ⟨mem_cons_self .., rfl⟩
    · rintro ⟨hmem, hko⟩
      rcases mem_cons.mp hmem with rfl | hmem
      · rfl
      · exact absurd (hko ▸ mem_map_of_mem hmem) hx
  · rw [Finmap.lookup_insert_of_ne m hk, h k o, mem_cons]
    constructor
    · rintro ⟨hmem, hko⟩
      exact ⟨Or.inr hmem, hko⟩
    · rintro ⟨rfl | hmem, hko⟩
      · exact absurd hko.symm hk
      · exact ⟨hmem, hko⟩

/-- Dropping an element. -/
theorem erase (h : MapOf key (o :: os) m) (hnodup : ((o :: os).map key).Nodup) :
    MapOf key os (m.erase (key o)) := by
  have ho : key o ∉ os.map key := (nodup_cons.mp hnodup).1
  intro k y
  by_cases hk : k = key o
  · subst hk
    rw [Finmap.lookup_erase]
    constructor
    · intro hnone
      cases hnone
    · rintro ⟨hmem, hky⟩
      exact absurd (hky ▸ mem_map_of_mem hmem) ho
  · rw [Finmap.lookup_erase_ne hk, h k y, mem_cons]
    constructor
    · rintro ⟨rfl | hmem, hky⟩
      · exact absurd hky.symm hk
      · exact ⟨hmem, hky⟩
    · rintro ⟨hmem, hky⟩
      exact ⟨Or.inr hmem, hky⟩

/-- Replacing an element by one with the same key. -/
theorem replace (h : MapOf key (o :: os) m) (hnodup : ((o :: os).map key).Nodup)
    (hkey : key o = key x) : MapOf key (x :: os) (m.insert (key x) x) := by
  have hx : key x ∉ os.map key := hkey ▸ (nodup_cons.mp hnodup).1
  have herase := (h.erase hnodup).insert hx
  have heq : (m.erase (key o)).insert (key x) x = m.insert (key x) x := by
    refine Finmap.ext_lookup fun k => ?_
    by_cases hk : k = key x
    · rw [hk, Finmap.lookup_insert, Finmap.lookup_insert]
    · rw [Finmap.lookup_insert_of_ne _ hk, Finmap.lookup_insert_of_ne _ hk,
        Finmap.lookup_erase_ne (hkey ▸ hk)]
  rwa [heq] at herase

/-- A list with distinct keys is a finite map. -/
theorem exists_of_nodup (h : (os.map key).Nodup) : ∃ m, MapOf key os m := by
  induction os with
  | nil => exact ⟨∅, MapOf.nil⟩
  | cons o os ih =>
    rw [map_cons, nodup_cons] at h
    obtain ⟨m, hm⟩ := ih h.2
    exact ⟨m.insert (key o) o, hm.insert h.1⟩

end MapOf

end MangoV4.Lib
