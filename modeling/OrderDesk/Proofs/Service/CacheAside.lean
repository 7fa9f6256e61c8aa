import Mathlib.Logic.Function.Iterate
import OrderDesk.Proofs.Service.Lookups

/-!
# One call after another

Calls of a service are awaited one after another, the scheduled fills run in the order they were
scheduled at any time between them, and the store may be out for any call (`Serving.step`). A
warm-up puts in the orders that it has read in any order, with fills in between.

What the cache is going to hold under an identity is its last scheduled fill, or else what it holds
already (`OrderCache.upcoming?`). Every step keeps this equal to what the store holds, so a cache
with no fill left to run holds stored orders only (`Serving.run_upToDate`). An order that comes into
the cache in the background is the most recent one there once the fills have run, and a call that
fails leaves the cache and the fills as they are.
-/

namespace OrderDesk

/-! ## The keys of a cache -/

namespace RecentPairs

variable {α β : Type} [BEq α] {c : RecentPairs α β} {capacity : Nat} {k : α}

/-- A miss changes nothing. -/
theorem get_of_peek?_eq_none (h : c.peek? k = none) : (c.get k).2 = c := by
  rw [peek?, Option.map_eq_none_iff] at h
  rw [get, h]

/-- A pair that was set is the most recent one, unless the cache may hold none. -/
theorem keys_set [LawfulBEq α] (h : 1 ≤ capacity) (c : RecentPairs α β) (k : α) (v : β) :
    ∃ ks, (c.set capacity k v).2.keys = k :: ks := by
  unfold set
  split
  · rename_i p hp
    have hk : p.1 = k := eq_of_beq (beq_of_pair? hp)
    exact ⟨_, congrArg (· :: keys (drop c k)) hk⟩
  · dsimp only
    split
    · exact ⟨_, rfl⟩
    · rename_i hlong
      cases c with
      | nil => exact absurd h hlong
      | cons p c => exact ⟨_, rfl⟩

end RecentPairs

namespace OrderCache

variable {c : OrderCache} {uid : String}

/-- The keys of a cache that keeps them in order, the most recent one first. -/
def recency? : OrderCache → Option (List String)
  | .lru c => some c.keys
  | .moka _ => none
  | .faulty _ => none

theorem isSome_recency?_get (c : OrderCache) (uid : String) :
    (c.get uid).2.recency?.isSome = c.recency?.isSome := by
  cases c <;> rfl

theorem isSome_recency?_set (c : OrderCache) (o : Order) :
    (c.set o).2.recency?.isSome = c.recency?.isSome := by
  cases c <;> rfl

theorem Sound.recency?_of_miss (h : c.Sound) (hmiss : c.cached? uid = none) :
    (c.get uid).2.recency? = c.recency? := by
  cases h with
  | lru c positive refines =>
    obtain ⟨cache, he, hr⟩ := refines.get uid
    have hkeys : cache.keys = c.cache.keys := by
      change c.cache.peek? uid = none at hmiss
      rw [refines.peek?] at hmiss
      rw [hr.keys, refines.keys, RecentPairs.get_of_peek?_eq_none hmiss]
    change some (c.get uid).2.keys = some c.keys
    rw [LruOrderCache.get, he]
    exact congrArg some hkeys
  | moka c => rfl

theorem Sound.recency?_set (h : c.Sound) (hc : c.recency?.isSome) (o : Order) :
    ∃ keys, (c.set o).2.recency? = some (o.uid :: keys) := by
  cases h with
  | lru c positive refines =>
    obtain ⟨cache, he, hr⟩ := refines.set o.uid o
    obtain ⟨keys, hkeys⟩ := RecentPairs.keys_set positive _ o.uid o
    refine ⟨keys, ?_⟩
    change some (c.set o).2.keys = _
    rw [LruOrderCache.set, he, ← hkeys, ← hr.keys]
    rfl
  | moka c => cases hc

/-- Under its identity the cache holds the order that was set, and elsewhere nothing new. -/
theorem Sound.of_cached?_set {o v : Order} (h : c.Sound)
    (hv : (c.set o).2.cached? uid = some v) :
    (if o.uid = uid then some o else c.cached? uid) = some v := by
  obtain ⟨cache, hset, -, hself, hothers⟩ := h.set o
  obtain rfl : (c.set o).2 = cache := congrArg Prod.snd hset
  split
  · subst uid
    exact hself.symm.trans hv
  · rename_i hne
    exact hothers uid v (Ne.symm hne) hv

theorem Sound.sound_set (h : c.Sound) (o : Order) : (c.set o).2.Sound := by
  obtain ⟨cache, hset, hcache, -⟩ := h.set o
  rwa [hset]

theorem Sound.sound_get (h : c.Sound) (uid : String) : (c.get uid).2.Sound := by
  obtain ⟨cache, hget, hcache, -⟩ := h.get uid
  rwa [hget]

theorem Sound.cached?_get (h : c.Sound) (uid u : String) :
    (c.get uid).2.cached? u = c.cached? u := by
  obtain ⟨cache, hget, -, hsame⟩ := h.get uid
  rw [hget]
  exact hsame u

/-- The cache is in order and keeps its keys in order. -/
structure Ordered (c : OrderCache) : Prop where
  sound : c.Sound
  recency : c.recency?.isSome

theorem Ordered.get (h : c.Ordered) (uid : String) : (c.get uid).2.Ordered :=
  ⟨h.sound.sound_get uid, (c.isSome_recency?_get uid).trans h.recency⟩

theorem Ordered.set (h : c.Ordered) (o : Order) : (c.set o).2.Ordered :=
  ⟨h.sound.sound_set o, (c.isSome_recency?_set o).trans h.recency⟩

theorem ordered_build {capacity : Nat} (h : build .lru capacity = .ok c) : c.Ordered := by
  refine ⟨(sound_build h).1, ?_⟩
  simp only [build, LruOrderCache.new?] at h
  cases hnew : LruCache.new? (α := String) (β := Order) capacity with
  | error e =>
    rw [hnew] at h
    cases h
  | ok cache =>
    rw [hnew] at h
    cases h
    rfl

/-! ### What a cache is going to hold -/

/-- The order that the cache holds under an identity when these orders have been put in one after
the other, unless it is driven out. -/
def upcoming? (c : OrderCache) (fills : List Order) (uid : String) : Option Order :=
  (fills.reverse.find? (·.uid == uid)).or (c.cached? uid)

variable {fills : List Order} {o v : Order}

theorem upcoming?_congr {c' : OrderCache} (h : ∀ u, c'.cached? u = c.cached? u)
    (fills : List Order) (uid : String) : c'.upcoming? fills uid = c.upcoming? fills uid := by
  rw [upcoming?, upcoming?, h]

/-- The last order counts. -/
theorem upcoming?_append (c : OrderCache) (fills : List Order) (v : Order) (uid : String) :
    c.upcoming? (fills ++ [v]) uid = if v.uid = uid then some v else c.upcoming? fills uid := by
  rw [upcoming?, List.reverse_append, List.reverse_singleton, List.singleton_append,
    List.find?_cons]
  by_cases huid : v.uid = uid
  · rw [if_pos huid, beq_iff_eq.2 huid]
    rfl
  · rw [if_neg huid, beq_false_of_ne huid]
    rfl

/-- Putting an order in brings in nothing else. -/
theorem Sound.of_upcoming?_set (h : c.Sound) (hv : (c.set o).2.upcoming? fills uid = some v) :
    c.upcoming? fills uid = some v ∨ o.uid = uid ∧ v = o := by
  rw [upcoming?, Option.or_eq_some_iff] at hv
  rw [upcoming?, Option.or_eq_some_iff]
  rcases hv with hv | ⟨hnone, hv⟩
  · exact .inl (.inl hv)
  have hset := h.of_cached?_set hv
  split at hset
  · rename_i huid
    exact .inr ⟨huid, (Option.some.inj hset).symm⟩
  · exact .inl (.inr ⟨hnone, hset⟩)

/-- What the first of the orders brings in was upcoming before. -/
theorem Sound.of_upcoming?_cons (h : c.Sound) (hv : (c.set o).2.upcoming? fills uid = some v) :
    c.upcoming? (o :: fills) uid = some v := by
  rw [upcoming?, Option.or_eq_some_iff] at hv
  rw [upcoming?, List.reverse_cons, List.find?_append, Option.or_assoc, Option.or_eq_some_iff]
  refine hv.imp_right fun ⟨hnone, hv⟩ => ⟨hnone, ?_⟩
  rw [← h.of_cached?_set hv, List.find?_singleton]
  by_cases huid : o.uid = uid <;> simp [huid]

end OrderCache

/-! ## What a call can come to -/

namespace Service

variable {s t : Service} {o v : Order} {uid : String} {limit : Nat} {e : OrderError}

theorem reach_eq_ok {α : Type} {answer : Except OrderError α} {a : α} :
    s.reach answer = .ok a ↔ s.outage = none ∧ answer = .ok a := by
  rw [reach]
  cases s.outage <;> simp

theorem fetch_eq_ok {store : OrderStore} : store.fetch uid = .ok v ↔ store.find? uid = some v := by
  rw [OrderStore.fetch]
  cases store.find? uid <;> simp

/-- The outcomes of a lookup, with what it leaves. -/
inductive Looks (s : Service) (uid : String) : Except OrderError Order → Service → Prop
  | refused (error : OrderError) : Looks s uid (.error error) s
  | hit (v : Order) (cached : s.cache.cached? uid = some v) :
      Looks s uid (.ok v) { s with cache := (s.cache.get uid).2 }
  | missed (error : OrderError) (lookups : Nat) (cached : s.cache.cached? uid = none) :
      Looks s uid (.error error) { s with cache := (s.cache.get uid).2, lookups }
  | found (v : Order) (lookups : Nat) (cached : s.cache.cached? uid = none)
      (stored : s.store.find? uid = some v) :
      Looks s uid (.ok v)
        { s with cache := (s.cache.get uid).2, lookups, fills := s.fills ++ [v] }

theorem looks (h : s.cache.Sound) (uid : String) : s.Looks uid (s.get uid).1 (s.get uid).2 := by
  obtain ⟨cache, hget, -⟩ := h.get uid
  obtain rfl : (s.cache.get uid).2 = cache := congrArg Prod.snd hget
  rw [Service.get]
  split
  · exact .refused _
  rw [lookUp, hget]
  cases hcached : s.cache.cached? uid with
  | some v => exact .hit v hcached
  | none =>
    dsimp only [fetch]
    cases hr : reach { s with cache := (s.cache.get uid).2 } (s.store.fetch uid) with
    | error e => exact .missed e _ hcached
    | ok v => exact .found v _ hcached (fetch_eq_ok.1 (reach_eq_ok.1 hr).2)

/-- A save writes to the store and has the order put into the cache later, or fails. -/
theorem save_eq (s : Service) (o : Order) :
    (∃ e, s.save o = (.error e, s)) ∨
      s.save o = (.ok (), { s with store := s.store.save o, fills := s.fills ++ [o] }) := by
  rw [save, write]
  cases hr : s.reach (.ok ()) with
  | error e => exact .inl ⟨e, rfl⟩
  | ok u => exact .inr rfl

theorem insert_eq (h : s.cache.Sound) (o : Order) :
    s.insert o = (.ok (), { s with cache := (s.cache.set o).2 }) := by
  obtain ⟨cache, hset, -⟩ := h.set o
  rw [insert, hset]

/-! ## Running the fills -/

theorem runFill_cons (h : s.cache.Sound) {rest : List Order} (hfills : s.fills = o :: rest) :
    s.runFill = { s with cache := (s.cache.set o).2, fills := rest } := by
  rw [runFill, hfills]
  exact congrArg Prod.snd (insert_eq (s := { s with fills := rest }) h o)

theorem flush_of_fills_eq_nil (h : s.fills = []) : s.flush = s := by
  rw [flush, h]
  rfl

theorem store_runFill (s : Service) : s.runFill.store = s.store := by
  rw [runFill]
  cases s.fills <;> rfl

/-- A fill that has run before need not run in a flush. -/
theorem flush_runFill (s : Service) : s.runFill.flush = s.flush := by
  cases hfills : s.fills with
  | nil => rw [runFill, hfills]
  | cons o rest =>
    have hrest : s.runFill.fills = rest := by
      rw [runFill, hfills]
      rfl
    rw [flush, flush, hrest, hfills, List.foldl_cons]

/-- What every fill keeps holds after a flush. -/
theorem flush_keeps_of_runFill {P : Service → Prop} (hfill : ∀ {s}, P s → P s.runFill)
    (h : P s) : P s.flush := by
  rw [flush]
  generalize s.fills = fills
  induction fills generalizing s with
  | nil => exact h
  | cons o rest ih => exact ih (hfill h)

theorem store_flush (s : Service) : s.flush.store = s.store :=
  flush_keeps_of_runFill (P := fun t => t.store = s.store) (fun h => (store_runFill _).trans h) rfl

theorem ordered_runFill (h : s.cache.Ordered) : s.runFill.cache.Ordered := by
  cases hfills : s.fills with
  | nil => rwa [runFill, hfills]
  | cons o rest =>
    rw [runFill_cons h.sound hfills]
    exact h.set o

theorem ordered_flush (h : s.cache.Ordered) : s.flush.cache.Ordered :=
  flush_keeps_of_runFill (P := fun s => s.cache.Ordered) ordered_runFill h

theorem flush_runFills (s : Service) (n : Nat) : (runFill^[n] s).flush = s.flush := by
  induction n generalizing s with
  | zero => rfl
  | succ n ih => exact (ih s.runFill).trans s.flush_runFill

/-- An order that was scheduled last is put in last. -/
theorem flush_schedule (s : Service) (o : Order) :
    (s.schedule o).flush = (s.flush.insert o).2 := by
  generalize hfills : s.fills = fills
  induction fills generalizing s with
  | nil =>
    have hnext : (s.schedule o).runFill = (s.insert o).2 := by
      rw [runFill, schedule, hfills]
      obtain ⟨store, cache, outage, lookups, fills⟩ := s
      cases hfills
      rfl
    rw [← flush_runFill, hnext, flush_of_fills_eq_nil hfills]
    exact flush_of_fills_eq_nil (s := (s.insert o).2) hfills
  | cons v rest ih =>
    have hrest : s.runFill.fills = rest := by
      rw [runFill, hfills]
      rfl
    have hnext : (s.schedule o).runFill = s.runFill.schedule o := by
      rw [runFill, runFill, schedule, hfills]
      rfl
    rw [← flush_runFill, hnext, ih s.runFill hrest, flush_runFill]

/-! ## What every call keeps -/

/-- The cache is in order, and is going to hold what the store holds. -/
structure UpToDate (s : Service) : Prop where
  cache : s.cache.Ordered
  keyed : s.store.Keyed
  upcoming : ∀ u v, s.cache.upcoming? s.fills u = some v → s.store.find? u = some v

namespace UpToDate

theorem cached (h : s.UpToDate) (hfills : s.fills = []) (hv : s.cache.cached? uid = some v) :
    s.store.find? uid = some v :=
  h.upcoming uid v (by rw [hfills]; exact hv)

theorem get (h : s.UpToDate) (uid : String) : (s.get uid).2.UpToDate := by
  have hcache := h.cache.get uid
  have hsame := OrderCache.upcoming?_congr (h.cache.sound.cached?_get uid) s.fills
  generalize hr : (s.get uid).1 = r
  generalize ht : (s.get uid).2 = t
  have hlooks := looks h.cache.sound uid
  rw [hr, ht] at hlooks
  cases hlooks with
  | refused e => exact h
  | hit v cached | missed e lookups cached =>
    exact ⟨hcache, h.keyed, fun u v hv => h.upcoming u v ((hsame u).symm.trans hv)⟩
  | found v lookups cached stored =>
    refine ⟨hcache, h.keyed, fun u w hw => ?_⟩
    rw [OrderCache.upcoming?_append, hsame, h.keyed uid v stored] at hw
    split at hw
    · rename_i huid
      rw [← Option.some.inj hw, ← huid]
      exact stored
    · exact h.upcoming u w hw

theorem save (h : s.UpToDate) (o : Order) : (s.save o).2.UpToDate := by
  rcases save_eq s o with ⟨e, he⟩ | he
  · rwa [he]
  rw [he]
  refine ⟨h.cache, h.keyed.save o, fun u v hv => ?_⟩
  rw [OrderCache.upcoming?_append] at hv
  rw [OrderStore.find?_save]
  split at hv
  · rename_i huid
    rwa [if_pos huid]
  · rename_i hne
    rw [if_neg hne]
    exact h.upcoming u v hv

/-- An order of the store may be put into the cache at any time. -/
theorem insert (h : s.UpToDate) (ho : s.store.find? o.uid = some o) :
    (s.insert o).2.UpToDate := by
  rw [insert_eq h.cache.sound]
  refine ⟨h.cache.set o, h.keyed, fun u v hv => ?_⟩
  rcases h.cache.sound.of_upcoming?_set hv with hv | ⟨rfl, rfl⟩
  · exact h.upcoming u v hv
  · exact ho

theorem runFill (h : s.UpToDate) : s.runFill.UpToDate := by
  cases hfills : s.fills with
  | nil => rwa [Service.runFill, hfills]
  | cons o rest =>
    rw [runFill_cons h.cache.sound hfills]
    refine ⟨h.cache.set o, h.keyed, fun u v hv => h.upcoming u v ?_⟩
    rw [hfills]
    exact h.cache.sound.of_upcoming?_cons hv

theorem flush (h : s.UpToDate) : s.flush.UpToDate :=
  flush_keeps_of_runFill (fun h => h.runFill) h

theorem find?_of_mem_last (h : s.UpToDate) {os : List Order} (hos : s.last limit = .ok os)
    (ho : o ∈ os) : s.store.find? o.uid = some o := by
  rw [last, reach_eq_ok] at hos
  obtain ⟨-, rfl⟩ := hos.imp_right Except.ok.inj
  exact h.keyed.find?_of_mem_last ho

theorem insertAll (h : s.UpToDate) {os : List Order}
    (hos : ∀ o ∈ os, s.store.find? o.uid = some o) : (s.insertAll os).2.UpToDate := by
  induction os generalizing s with
  | nil => exact h
  | cons o os ih =>
    have hinsert := h.insert (hos o List.mem_cons_self)
    rw [Service.insertAll]
    refine ih hinsert fun v hv => ?_
    rw [insert_eq h.cache.sound]
    exact hos v (List.mem_cons_of_mem o hv)

theorem warm (h : s.UpToDate) (limit : Nat) : (s.warm limit).2.UpToDate := by
  rw [Service.warm]
  cases hos : s.last limit with
  | error e => exact h
  | ok os =>
    cases os with
    | nil => exact h
    | cons o os =>
      refine h.flush.insertAll fun v hv => ?_
      rw [store_flush]
      exact h.find?_of_mem_last hos hv

theorem fail (h : s.UpToDate) (message : Option String) :
    UpToDate { s with outage := message } :=
  ⟨h.cache, h.keyed, h.upcoming⟩

end UpToDate

theorem upToDate_opened {capacity : Nat} {cache : OrderCache}
    (h : OrderCache.build .lru capacity = .ok cache) (orders : List Order) :
    UpToDate { store := .ofOrders orders, cache } :=
  ⟨OrderCache.ordered_build h, OrderStore.keyed_ofOrders orders,
    fun u _ hv => absurd (((OrderCache.sound_build h).2 u).symm.trans hv) nofun⟩

/-! ## The most recent order -/

/-- An order that was scheduled is the most recent one once the fills have run. -/
theorem recency?_schedule (h : s.cache.Ordered) (o : Order) (n : Nat) :
    ∃ keys, (runFill^[n] (s.schedule o)).flush.cache.recency? = some (o.uid :: keys) := by
  have hflush := ordered_flush h
  rw [flush_runFills, flush_schedule, insert_eq hflush.sound]
  exact hflush.sound.recency?_set hflush.recency o

/-- A lookup that had to ask the store. -/
theorem recency?_get (h : s.cache.Ordered) (hkeyed : s.store.Keyed) (hv : (s.get uid).1 = .ok v)
    (hmiss : s.cache.cached? uid = none) (n : Nat) :
    ∃ keys, (runFill^[n] (s.get uid).2).flush.cache.recency? = some (uid :: keys) := by
  generalize ht : (s.get uid).2 = t
  have hlooks := looks h.sound uid
  rw [hv, ht] at hlooks
  cases hlooks with
  | hit _ cached =>
    rw [hmiss] at cached
    cases cached
  | found _ lookups cached stored =>
    rw [← hkeyed uid v stored]
    let read : Service := { s with cache := (s.cache.get v.uid).2, lookups }
    exact recency?_schedule (s := read) (h.get v.uid) v n

theorem recency?_save (h : s.cache.Ordered) (ho : (s.save o).1 = .ok ()) (n : Nat) :
    ∃ keys, (runFill^[n] (s.save o).2).flush.cache.recency? = some (o.uid :: keys) := by
  rcases save_eq s o with ⟨e, he⟩ | he
  · rw [he] at ho
    cases ho
  · rw [he]
    exact recency?_schedule (s := { s with store := s.store.save o }) h o n

/-! ## Calls that fail -/

/-- No fill was scheduled, and the cache holds what it held, in the same order. -/
structure Undisturbed (s t : Service) : Prop where
  fills : t.fills = s.fills
  recency : t.cache.recency? = s.cache.recency?
  cached : ∀ u, t.cache.cached? u = s.cache.cached? u

theorem Undisturbed.refl (s : Service) : Undisturbed s s := ⟨rfl, rfl, fun _ => rfl⟩

theorem undisturbed_get (h : s.cache.Sound) (he : (s.get uid).1 = .error e) :
    Undisturbed s (s.get uid).2 := by
  generalize ht : (s.get uid).2 = t
  have hlooks := looks h uid
  rw [he, ht] at hlooks
  cases hlooks with
  | refused => exact .refl s
  | missed error lookups cached =>
    exact ⟨rfl, h.recency?_of_miss cached, h.cached?_get uid⟩

theorem undisturbed_save (he : (s.save o).1 = .error e) : Undisturbed s (s.save o).2 := by
  rcases save_eq s o with ⟨error, hsave⟩ | hsave
  · rw [hsave]
    exact .refl s
  · rw [hsave] at he
    cases he

theorem insertAll_ok (h : s.cache.Sound) (os : List Order) : (s.insertAll os).1 = .ok () := by
  induction os generalizing s with
  | nil => rfl
  | cons o os ih =>
    rw [insertAll, insert_eq h]
    exact ih (h.sound_set o)

/-- A warm-up fails only if the store does not give the latest orders. -/
theorem undisturbed_warm (h : s.cache.Ordered) (he : (s.warm limit).1 = .error e) :
    Undisturbed s (s.warm limit).2 := by
  rw [warm] at he ⊢
  cases hlast : s.last limit with
  | error error => exact .refl s
  | ok os =>
    rw [hlast] at he
    cases os with
    | nil => cases he
    | cons o os =>
      dsimp only at he
      rw [insertAll_ok (ordered_flush h).sound] at he
      cases he

end Service

/-! ## One call after another -/

/-- A service that answers one call after another. -/
structure Serving where
  service : Service
  /-- What the warm-up under way has read and not yet put into the cache. -/
  loading : List Order := []

namespace Serving

inductive Turn where
  | get (uid : String)
  | save (o : Order)
  | last (limit : Nat)
  | flush
  /-- A warm-up that nothing comes between. -/
  | warm (limit : Nat)
  /-- A warm-up begins: it reads the latest orders. -/
  | read (limit : Nat)
  /-- The warm-up under way puts one of its orders into the cache. -/
  | load (i : Nat)
  /-- The fill that was scheduled first runs. -/
  | fill
  /-- The store fails with this message from now on, or answers again. -/
  | outage (message? : Option String)

/-- A call, which has to wait for the end of a warm-up. -/
def call (x : Serving) (f : Service → Service) : Option Serving :=
  if x.loading.isEmpty then some { x with service := f x.service } else none

/-- One turn; `none` if it cannot be taken. -/
def step (x : Serving) : Turn → Option Serving
  | .get uid => x.call fun s => (s.get uid).2
  | .save o => x.call fun s => (s.save o).2
  | .last _ => x.call id
  | .flush => x.call Service.flush
  | .warm limit => x.call fun s => (s.warm limit).2
  | .read limit =>
    match x.service.last limit with
    | .ok os => if x.loading.isEmpty then some { x with loading := os } else none
    | .error _ => x.call id
  | .load i =>
    x.loading[i]?.map fun o =>
      { service := (x.service.insert o).2, loading := x.loading.eraseIdx i }
  | .fill => some { x with service := x.service.runFill }
  | .outage message? => some { x with service := { x.service with outage := message? } }

/-- The turns in this order; those that cannot be taken are left out. -/
def run (x : Serving) (turns : List Turn) : Serving :=
  runSteps step x turns

/-- A service that has just been set up. -/
def opened (orders : List Order) (cache : OrderCache) : Serving :=
  { service := { store := .ofOrders orders, cache } }

variable {x x' : Serving} {turn : Turn}

/-- The service is up to date, and a warm-up under way has read what the store holds. -/
structure UpToDate (x : Serving) : Prop where
  service : x.service.UpToDate
  loading : ∀ o ∈ x.loading, x.service.store.find? o.uid = some o

theorem UpToDate.call (h : x.UpToDate) {f : Service → Service} (hx : x.call f = some x')
    (hf : x.service.UpToDate → (f x.service).UpToDate) : x'.UpToDate := by
  rw [Serving.call] at hx
  split at hx
  · rename_i hidle
    cases hx
    exact ⟨hf h.service, by simp [List.isEmpty_iff.1 hidle]⟩
  · cases hx

theorem UpToDate.step (h : x.UpToDate) (hx : x.step turn = some x') : x'.UpToDate := by
  cases turn with
  | get uid => exact h.call (f := fun s => (s.get uid).2) hx fun hs => hs.get uid
  | save o => exact h.call (f := fun s => (s.save o).2) hx fun hs => hs.save o
  | last limit => exact h.call hx id
  | flush => exact h.call hx fun hs => hs.flush
  | warm limit => exact h.call (f := fun s => (s.warm limit).2) hx fun hs => hs.warm limit
  | read limit =>
    rw [Serving.step] at hx
    split at hx
    · rename_i os hos
      split at hx
      · cases hx
        exact ⟨h.service, fun o ho => h.service.find?_of_mem_last hos ho⟩
      · cases hx
    · exact h.call hx id
  | load i =>
    obtain ⟨o, ho, rfl⟩ := Option.map_eq_some_iff.1 hx
    have hstored := h.loading o (List.mem_of_getElem? ho)
    refine ⟨h.service.insert hstored, fun v hv => ?_⟩
    rw [Service.insert_eq h.service.cache.sound]
    exact h.loading v (List.mem_of_mem_eraseIdx hv)
  | fill =>
    cases hx
    refine ⟨h.service.runFill, fun v hv => ?_⟩
    rw [Service.store_runFill]
    exact h.loading v hv
  | outage message =>
    cases hx
    exact ⟨h.service.fail message, h.loading⟩

theorem upToDate_opened {capacity : Nat} {cache : OrderCache}
    (h : OrderCache.build .lru capacity = .ok cache) (orders : List Order) :
    (opened orders cache).UpToDate :=
  ⟨Service.upToDate_opened h orders, nofun⟩

theorem UpToDate.run (h : x.UpToDate) (turns : List Turn) : (x.run turns).UpToDate :=
  runSteps_keeps (fun h hx => h.step hx) h turns

/-- Over any turns of a service with an empty cache of the recently used in front of a store that
may be out at any time: when no fill is left, every cached order is the one that the store holds; an
order that a lookup found in the store, or that was saved, is the most recent one in the cache once
the fills have run; and a call that fails has scheduled no fill and left the cache as it was. -/
theorem run_upToDate {capacity : Nat} {cache : OrderCache}
    (hcache : OrderCache.build .lru capacity = .ok cache) (orders : List Order)
    (turns : List Turn) :
    let s := ((opened orders cache).run turns).service
    (s.fills = [] → ∀ uid v, s.cache.cached? uid = some v → s.store.find? uid = some v) ∧
    (∀ uid v n, (s.get uid).1 = .ok v → s.cache.cached? uid = none →
      ∃ keys, (Service.runFill^[n] (s.get uid).2).flush.cache.recency? = some (uid :: keys)) ∧
    (∀ o n, (s.save o).1 = .ok () →
      ∃ keys, (Service.runFill^[n] (s.save o).2).flush.cache.recency? = some (o.uid :: keys)) ∧
    (∀ uid e, (s.get uid).1 = .error e → s.Undisturbed (s.get uid).2) ∧
    (∀ o e, (s.save o).1 = .error e → s.Undisturbed (s.save o).2) ∧
    ∀ limit e, (s.warm limit).1 = .error e → s.Undisturbed (s.warm limit).2 := by
  intro s
  have h : s.UpToDate := (upToDate_opened hcache orders |>.run turns).service
  refine ⟨fun hfills uid v hv => h.cached hfills hv, fun uid v n hv hmiss => ?_, fun o n ho => ?_,
    fun uid e he => Service.undisturbed_get h.cache.sound he,
    fun o e he => Service.undisturbed_save he,
    fun limit e he => Service.undisturbed_warm h.cache he⟩
  · exact Service.recency?_get h.cache h.keyed hv hmiss n
  · exact Service.recency?_save h.cache ho n

/-- A save that fails, two of one order with a fill in between, one of another order, a flush. -/
theorem upToDate_after_overwrite : ∃ cache, OrderCache.build .lru 2 = .ok cache ∧
    let turns := [Turn.outage (some "down"), .save (Service.tracked "a" "0"), .outage none,
      .save (Service.tracked "a" "1"), .fill, .save (Service.tracked "a" "2"),
      .save (Service.tracked "b" "1"), .fill, .last 3, .flush]
    let s := ((opened [] cache).run turns).service
    s.fills = [] ∧ s.store.find? "a" = some (Service.tracked "a" "2") ∧
    (∀ uid v, s.cache.cached? uid = some v → s.store.find? uid = some v) ∧
    ∃ keys, (s.save (Service.tracked "c" "1")).2.flush.cache.recency? = some ("c" :: keys) := by
  have hcache : OrderCache.build .lru 2 =
      .ok (.lru { cache := ⟨∅, .empty, 2⟩, metrics := { backend := "lru" } }) := rfl
  refine ⟨_, hcache, ?_⟩
  intro turns s
  obtain ⟨hstored, -, hrecent, -⟩ := run_upToDate hcache [] turns
  have hfills : s.fills = [] := rfl
  have hstore : s.store = ((OrderStore.empty.save (Service.tracked "a" "1")).save
      (Service.tracked "a" "2")).save (Service.tracked "b" "1") := rfl
  refine ⟨hfills, ?_, hstored hfills, hrecent (Service.tracked "c" "1") 0 rfl⟩
  rw [hstore, OrderStore.find?_save, OrderStore.find?_save]
  decide

end Serving

end OrderDesk
