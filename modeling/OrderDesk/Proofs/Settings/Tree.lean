import OrderDesk.Settings.Layer
import OrderDesk.Proofs.Members

/-! # What stands at a path of a tree of settings

* `Value.Leads`: what the value at the end of a path of names means, if the path goes that far;
* `Value.Sets`: what a new value, put on the way, has for the end of the path;
* `Value.Leads.assign`, `Value.Leads.assign_apart`: what becomes of the end of the path when a value
  is put on the way to it, or off the way;
* `Layer.leads_foldl`: after many named values the last one for the path stands at its end. -/

namespace OrderDesk.Settings

/-- Neither path goes on from the other. -/
def Apart (names path : List String) : Prop := ¬ names <+: path ∧ ¬ path <+: names

instance (names path : List String) : Decidable (Apart names path) :=
  inferInstanceAs (Decidable (_ ∧ _))

theorem Apart.tail {k : String} {names path : List String} (h : Apart (k :: names) (k :: path)) :
    Apart names path :=
  ⟨fun hp => h.1 (List.cons_prefix_cons.2 ⟨rfl, hp⟩),
    fun hp => h.2 (List.cons_prefix_cons.2 ⟨rfl, hp⟩)⟩

namespace Value

section Members

variable {k name : String} {f : Value → Value} {ms new old : List (String × Value)}

theorem lookup_alter_self : (alter k f ms).lookup k = some (f ((ms.lookup k).getD nothing)) := by
  induction ms with
  | nil => simp [alter]
  | cons m ms ih =>
    obtain ⟨k', v⟩ := m
    by_cases h : k' = k
    · subst h
      simp [alter]
    · have h' : (k == k') = false := by simpa using Ne.symm h
      simpa [alter, h, List.lookup_cons, h'] using ih

theorem lookup_alter_of_ne (h : k ≠ name) : (alter name f ms).lookup k = ms.lookup k := by
  have hk : (k == name) = false := by simpa using h
  induction ms with
  | nil => simp [alter, List.lookup_cons, hk]
  | cons m ms ih =>
    obtain ⟨k', v⟩ := m
    by_cases h' : k' = name
    · subst h'
      simp [alter, List.lookup_cons, hk]
    · simp only [alter, if_neg h', List.lookup_cons, ih]

/-- A key that stands only once in the new members changes once. -/
theorem lookup_overlayAll (h : (new.map Prod.fst).Nodup) : (overlayAll new old).lookup k =
    ((new.lookup k).map fun v => overlay v ((old.lookup k).getD nothing)).or (old.lookup k) := by
  induction new generalizing old with
  | nil => simp [overlayAll]
  | cons m new ih =>
    obtain ⟨k', v⟩ := m
    rw [List.map_cons, List.nodup_cons] at h
    rw [overlayAll, ih h.2]
    by_cases hk : k = k'
    · subst hk
      simp [lookup_of_notMem h.1, lookup_alter_self]
    · have hk' : (k == k') = false := by simpa using hk
      rw [lookup_alter_of_ne hk, List.lookup_cons, hk']

end Members

section

variable {α : Type} {R : Value → α → Prop}

/-- From a value, if there is one, tables lead along the path to one that means `x`, or end
before. -/
inductive Leads (R : Value → α → Prop) : List String → Option Value → Option α → Prop
  | missing {path : List String} : Leads R path none none
  | here {v : Value} {x : α} (h : R v x) : Leads R [] (some v) (some x)
  | inside {k : String} {path : List String} {s : Option Source} {ms : List (String × Value)}
      {x? : Option α} (h : Leads R path (ms.lookup k) x?) :
      Leads R (k :: path) (some (.table s ms)) x?

/-- A new value, put where the path is still to go, has a scalar for the end of the path, or tables
without it. -/
inductive Sets (R : Value → α → Prop) : List String → Value → Option α → Prop
  | scalar {s : Option Source} {c : Scalar} {x : α} (h : R (.scalar s c) x) :
      Sets R [] (.scalar s c) (some x)
  | absent {k : String} {path : List String} {s : Option Source} {ms : List (String × Value)}
      (distinct : (ms.map Prod.fst).Nodup) (h : ms.lookup k = none) :
      Sets R (k :: path) (.table s ms) none
  | inside {k : String} {path : List String} {s : Option Source} {ms : List (String × Value)}
      {v : Value} {x? : Option α} (distinct : (ms.map Prod.fst).Nodup)
      (h : ms.lookup k = some v) (hv : Sets R path v x?) : Sets R (k :: path) (.table s ms) x?

variable {k : String} {names path rest : List String} {v? : Option Value} {x? x?' : Option α}
  {new : Value}

/-- What is made from nothing is made from a table without members. -/
theorem Leads.uncons (h : Leads R (k :: path) v? x?) :
    Leads R path ((v?.getD nothing).asTable.2.lookup k) x? := by
  cases h with
  | missing => exact .missing
  | inside h => exact h

theorem Leads.overlay (h : Leads R rest v? x?) (hnew : Sets R rest new x?') :
    Leads R rest (some (Value.overlay new (v?.getD nothing))) (x?'.or x?) := by
  induction hnew generalizing v? with
  | scalar hx =>
    rw [Value.overlay]
    exact .here hx
  | absent distinct hk =>
    rw [Value.overlay]
    refine .inside ?_
    rw [lookup_overlayAll distinct, hk]
    exact h.uncons
  | inside distinct hk _ ih =>
    rw [Value.overlay]
    refine .inside ?_
    rw [lookup_overlayAll distinct, hk]
    exact ih h.uncons

theorem Leads.assign (h : Leads R (names ++ rest) v? x?) (hnew : Sets R rest new x?') :
    Leads R (names ++ rest) (some (Value.assign new (names.map .member) (v?.getD nothing)))
      (x?'.or x?) := by
  induction names generalizing v? with
  | nil => exact h.overlay hnew
  | cons name names ih =>
    refine .inside ?_
    rw [lookup_alter_self]
    exact ih h.uncons

theorem Leads.assign_apart (h : Leads R path v? x?) (apart : Apart names path) :
    Leads R path (some (Value.assign new (names.map .member) (v?.getD nothing))) x? := by
  induction names generalizing path v? with
  | nil => exact absurd List.nil_prefix apart.1
  | cons name names ih =>
    cases path with
    | nil => exact absurd List.nil_prefix apart.2
    | cons k path =>
      refine .inside ?_
      by_cases hk : k = name
      · subst hk
        rw [lookup_alter_self]
        exact ih h.uncons apart.tail
      · rw [lookup_alter_of_ne hk]
        exact h.uncons

end

end Value

namespace Layer

variable {α β : Type} {R : Value → α → Prop} {path : List String} {root : Value}
  {x? x?' : Option α}

/-- What a named value, if there is one, has for the end of a path: nothing, if its name leads off
the path. -/
inductive Bears (R : Value → α → Prop) (path : List String) :
    Option (String × Value) → Option α → Prop
  | none : Bears R path none none
  | apart {name : String} {names : List String} {v : Value}
      (hname : Path.ofName name = names.map .member) (h : Apart names path) :
      Bears R path (some (name, v)) none
  | sets {name : String} {names rest : List String} {v : Value} {x? : Option α}
      (hname : Path.ofName name = names.map .member) (hpath : path = names ++ rest)
      (h : Value.Sets R rest v x?) : Bears R path (some (name, v)) x?

/-- The tree with a named value put into it. -/
def put (root : Value) (e : String × Value) : Value := Value.assign e.2 (Path.ofName e.1) root

theorem tree_eq (layer : Layer) : layer.tree = layer.foldl put (.table none []) := rfl

theorem Bears.put {e : String × Value} (he : Bears R path (some e) x?')
    (h : Value.Leads R path (some root) x?) :
    Value.Leads R path (some (put root e)) (x?'.or x?) := by
  cases he with
  | apart hname apart =>
    rw [Layer.put, hname]
    exact h.assign_apart apart
  | sets hname hpath hv =>
    subst hpath
    rw [Layer.put, hname]
    exact h.assign hv

/-- Each value goes over those before it. -/
theorem leads_foldl {entry : β → Option (String × Value)} {get : β → Option α} {bs : List β}
    (h : ∀ b ∈ bs, Bears R path (entry b) (get b)) (hroot : Value.Leads R path (some root) x?) :
    Value.Leads R path (some ((bs.filterMap entry).foldl put root))
      ((bs.reverse.findSome? get).or x?) := by
  induction bs generalizing root x? with
  | nil => exact hroot
  | cons b bs ih =>
    have hb := h b List.mem_cons_self
    have hbs := fun b' hb' => h b' (List.mem_cons_of_mem b hb')
    rw [List.reverse_cons, List.findSome?_append, List.findSome?_singleton, Option.or_assoc]
    cases he : entry b with
    | none =>
      have hget : get b = none := by
        generalize get b = x at hb
        rw [he] at hb
        cases hb
        rfl
      rw [List.filterMap_cons_none he, hget]
      exact ih hbs hroot
    | some e =>
      rw [he] at hb
      rw [List.filterMap_cons_some he]
      exact ih hbs (hb.put hroot)

end Layer

end OrderDesk.Settings
