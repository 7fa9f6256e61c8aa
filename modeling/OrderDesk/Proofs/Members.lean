import Mathlib.Data.List.Nodup

/-!
# Named members

Lookups in lists of named values: what a list finds whose names are distinct, and what is found when
only some of the names stay.
-/

namespace OrderDesk

variable {μ : Type} {ms : List (String × μ)} {name : String} {names : List String}

theorem lookup_of_mem {x : String × μ} (hnodup : (ms.map Prod.fst).Nodup) (hx : x ∈ ms) :
    ms.lookup x.1 = some x.2 := by
  induction ms with
  | nil => cases hx
  | cons y ms ih =>
    rw [List.map_cons, List.nodup_cons] at hnodup
    rcases List.mem_cons.1 hx with rfl | hx
    · exact List.lookup_cons_self
    · have hne : x.1 ≠ y.1 := by
        intro he
        exact hnodup.1 (he ▸ List.mem_map_of_mem hx)
      rw [List.lookup_cons, beq_eq_false_iff_ne.2 hne]
      exact ih hnodup.2 hx

theorem lookup_of_notMem (h : name ∉ ms.map Prod.fst) : ms.lookup name = none := by
  rw [List.lookup_eq_none_iff]
  intro x hx
  simp only [bne_iff_ne]
  rintro rfl
  exact h (List.mem_map_of_mem hx)

theorem lookup_filter_of_mem (ms : List (String × μ)) (h : name ∈ names) :
    (ms.filter fun m => m.1 ∈ names).lookup name = ms.lookup name := by
  induction ms with
  | nil => rfl
  | cons m ms ih =>
    rw [List.filter_cons, List.lookup_cons]
    split
    · rw [List.lookup_cons, ih]
    · next hm =>
      have hne : name ≠ m.1 := by
        rintro rfl
        exact hm (decide_eq_true h)
      rw [beq_eq_false_iff_ne.2 hne, ih]

theorem lookup_filter_of_notMem (ms : List (String × μ)) (h : name ∉ names) :
    (ms.filter fun m => m.1 ∈ names).lookup name = none := by
  refine lookup_of_notMem fun hmem => h ?_
  obtain ⟨m, hm, rfl⟩ := List.mem_map.1 hmem
  simpa using (List.mem_filter.1 hm).2

end OrderDesk
