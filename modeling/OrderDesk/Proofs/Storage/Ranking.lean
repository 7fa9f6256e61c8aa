import Mathlib.Data.List.Dedup
import Mathlib.Data.List.Induction
import OrderDesk.Proofs.Storage

/-!
# The latest orders of a history of savings

What a store says of its latest orders depends on what was saved last under each identity, and on
nothing else: these orders have one ranking by the time of their creation and their identities
(`Ranking`, `Ranking.eq`), and the latest ones are the first of it (`last_ranked`). Neither the
order of the table nor the order in which different identities were saved plays a part.
-/

namespace OrderDesk.OrderStore

variable {o : Order} {uid : String} {history history' ranking ranking' table : List Order}

/-- The order that a history leaves under an identity, the one that was saved last. -/
def lastSaved? (history : List Order) (uid : String) : Option Order :=
  (history.filter fun o => o.uid = uid).getLast?

theorem lastSaved?_concat (history : List Order) (o : Order) (uid : String) :
    lastSaved? (history ++ [o]) uid = if o.uid = uid then some o else lastSaved? history uid := by
  rw [lastSaved?, List.filter_append, List.filter_singleton]
  by_cases huid : o.uid = uid
  · rw [decide_eq_true huid, if_pos huid]
    exact List.getLast?_concat
  · rw [decide_eq_false huid, if_neg huid, cond_false, List.append_nil]
    rfl

/-- A store holds what was saved last. -/
theorem find?_ofOrders (history : List Order) (uid : String) :
    (ofOrders history).find? uid = lastSaved? history uid := by
  induction history using List.reverseRecOn with
  | nil => exact find?_empty uid
  | append_singleton history o ih =>
    have hsave : ofOrders (history ++ [o]) = (ofOrders history).save o := List.foldl_append
    rw [hsave, find?_save, lastSaved?_concat, ih]

theorem uid_of_lastSaved? (h : lastSaved? history uid = some o) : o.uid = uid := by
  have hmem := List.mem_of_getLast? h
  exact of_decide_eq_true (List.mem_filter.1 hmem).2

theorem isSome_lastSaved? :
    (lastSaved? history uid).isSome ↔ uid ∈ history.map (·.uid) := by
  rw [lastSaved?, List.getLast?_isSome, ne_eq, List.filter_eq_nil_iff, List.mem_map]
  simp

/-! ## Rankings -/

/-- The last order of every identity, by the time of creation, the latest first, and among those
created at the same instant by the identity. -/
structure Ranking (history ranking : List Order) : Prop where
  sorted : ranking.Pairwise Precedes
  mem_iff : ∀ {o}, o ∈ ranking ↔ lastSaved? history o.uid = some o

/-- Every identity of the history is there, once. -/
theorem Ranking.perm_uids (h : Ranking history ranking) :
    (ranking.map (·.uid)).Perm (history.map (·.uid)).dedup := by
  have hnodup : (ranking.map (·.uid)).Nodup := by
    refine List.pairwise_map.2 ((nodup_of_sorted h.sorted).imp_of_mem ?_)
    intro a b ha hb hne huid
    have hlast := h.mem_iff.1 ha
    rw [huid, h.mem_iff.1 hb] at hlast
    exact hne (Option.some.inj hlast).symm
  refine (List.perm_ext_iff_of_nodup hnodup (List.nodup_dedup _)).2 fun uid => ?_
  have hsaved : uid ∈ (history.map (·.uid)).dedup ↔ ∃ o, lastSaved? history uid = some o := by
    rw [List.mem_dedup, ← isSome_lastSaved?, Option.isSome_iff_exists]
  rw [hsaved, List.mem_map]
  constructor
  · rintro ⟨o, ho, rfl⟩
    exact ⟨o, h.mem_iff.1 ho⟩
  · rintro ⟨o, ho⟩
    obtain rfl := uid_of_lastSaved? ho
    exact ⟨o, h.mem_iff.2 ho, rfl⟩

/-- The ranking is determined by what was saved last under each identity. -/
theorem Ranking.eq (h : Ranking history ranking) (h' : Ranking history' ranking')
    (hlast : ∀ uid, lastSaved? history' uid = lastSaved? history uid) : ranking' = ranking :=
  eq_of_sorted h'.sorted h.sorted fun o => by rw [h'.mem_iff, h.mem_iff, hlast]

/-- The orders of a store are ranked by sorting them, in whatever order its table has them. -/
theorem ranking_mergeSort (h : table.Perm (ofOrders history).contents) :
    Ranking history (table.mergeSort newerFirst) where
  sorted := (keyed_ofOrders history).sorted_mergeSort h
  mem_iff := by
    intro o
    rw [List.mem_mergeSort, h.mem_iff, (keyed_ofOrders history).mem_contents, find?_ofOrders]

/-! ## The latest orders -/

/-- **The latest orders are the first of the ranking.** The orders that a store was opened with and
those that were saved since have a ranking; the latest `n` orders are its first `n`, whatever order
the table gives the orders in and in whatever order different identities were saved. -/
theorem last_ranked (opening saves : List Order) :
    let store := saves.foldl save (ofOrders opening)
    ∃ ranking, Ranking (opening ++ saves) ranking ∧
      (ranking.map (·.uid)).Perm ((opening ++ saves).map (·.uid)).dedup ∧
      (∀ n, store.last n = ranking.take n) ∧
      (∀ n, (store.last n).length = min n ((opening ++ saves).map (·.uid)).dedup.length) ∧
      (∀ n (table : List Order), table.Perm store.contents →
        (table.mergeSort newerFirst).take n = store.last n) ∧
      (∀ n (opening' saves' : List Order), (∀ uid, lastSaved? (opening' ++ saves') uid =
          lastSaved? (opening ++ saves) uid) →
        (saves'.foldl save (ofOrders opening')).last n = store.last n) ∧
      ∀ n m, n ≤ m → store.last n <+: store.last m := by
  have hstore : ∀ opening saves : List Order,
      saves.foldl save (ofOrders opening) = ofOrders (opening ++ saves) := fun opening saves =>
    List.foldl_append.symm
  rw [hstore]
  have hrank : Ranking (opening ++ saves) _ := ranking_mergeSort (.refl _)
  refine ⟨_, hrank, hrank.perm_uids, fun n => rfl, fun n => ?_, fun n table hp => ?_,
    fun n opening' saves' hlast => ?_, fun n m hle => List.take_prefix_take_left hle⟩
  · rw [last, List.length_take, ← hrank.perm_uids.length_eq, List.length_map]
  · rw [hrank.eq (ranking_mergeSort hp) fun _ => rfl]
    rfl
  · rw [hstore, last, hrank.eq (ranking_mergeSort (.refl _)) hlast]
    rfl

/-- An order that was the latest is saved again as one of three that are equally old: their
identities rank them, and it is no longer the first. -/
theorem last_of_equally_old :
    let order (uid : String) (second : Nat) : Order :=
      { (default : Order) with uid, createdAt := ⟨⟨2020, 9, 13⟩, second, 0⟩ }
    let store := [order "b" 0].foldl save (ofOrders [order "b" 1, order "c" 0, order "a" 0])
    store.last 2 = [order "a" 0, order "b" 0] ∧
      (store.contents.reverse.mergeSort newerFirst).take 2 = store.last 2 ∧
      store.last 1 <+: store.last 2 := by
  intro order store
  obtain ⟨ranking, hrank, -, hlast, -, htable, -, hprefix⟩ :=
    last_ranked [order "b" 1, order "c" 0, order "a" 0] [order "b" 0]
  have hthree : Ranking ([order "b" 1, order "c" 0, order "a" 0] ++ [order "b" 0])
      [order "a" 0, order "b" 0, order "c" 0] := by
    refine ⟨by decide, fun {o} => ⟨fun ho => ?_, fun ho => ?_⟩⟩
    · simp only [List.mem_cons, List.not_mem_nil, or_false] at ho
      rcases ho with rfl | rfl | rfl <;> rfl
    · have hmem := (List.mem_filter.1 (List.mem_of_getLast? ho)).1
      simp only [List.mem_append, List.mem_cons, List.not_mem_nil, or_false] at hmem
      rcases hmem with (rfl | rfl | rfl) | rfl
      · exact absurd ho (by decide)
      all_goals simp
  exact ⟨(hlast 2).trans (congrArg (List.take 2) (hthree.eq hrank fun _ => rfl)),
    htable 2 _ (List.reverse_perm _), hprefix 1 2 (by decide)⟩

end OrderDesk.OrderStore
