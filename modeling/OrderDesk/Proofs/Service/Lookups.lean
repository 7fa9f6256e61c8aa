import OrderDesk.Proofs.Cache.Entries
import OrderDesk.Proofs.Calls
import OrderDesk.Proofs.Storage
import OrderDesk.Service

/-!
# Lookups after a save

The calls of a service are made one after another, and the scheduled fills run between them in any
order (`Service.run`). A lookup gives what the cache holds, or else what the store holds
(`Service.Sound.get`).

After an order was saved, lookups give it back, or another version of it that was in the cache or
on its way there at that time (`Service.run_get_after_save`). A cached version stays where it is
when another one is saved, so the exception is a real one (`Service.Sound.get_of_cached`).
-/

namespace OrderDesk.Service

/-! ## Calls and fills -/

inductive Action where
  | get (uid : String)
  | save (o : Order)
  | last (limit : Nat)
  /-- The most recent orders are read, and are now on their way into the cache. -/
  | warm (limit : Nat)
  /-- One of the orders on their way comes into the cache. -/
  | fill (i : Nat)

def fillAt (s : Service) (i : Nat) : Option Service :=
  s.fills[i]?.map fun o => (({ s with fills := s.fills.eraseIdx i } : Service).insert o).2

/-- A call, or one of the fills; `none` if there is no such fill or the call fails. -/
def step (s : Service) : Action → Option Service
  | .get uid => some (s.get uid).2
  | .save o => some (s.save o).2
  | .last _ => some s
  | .warm limit =>
    match s.last limit with
    | .ok os => some { s with fills := s.fills ++ os }
    | .error _ => none
  | .fill i => s.fillAt i

/-- The calls and the fills in this order. -/
def run (s : Service) (actions : List Action) : Service :=
  runSteps step s actions

/-- A service that has just been set up. -/
def opened (orders : List Order) (cache : OrderCache) : Service :=
  { store := .ofOrders orders, cache }

theorem run_append (s : Service) (before after : List Action) :
    s.run (before ++ after) = (s.run before).run after :=
  List.foldl_append ..

theorem run_cons (s : Service) (action : Action) (actions : List Action) :
    s.run (action :: actions) = ((s.step action).getD s).run actions := rfl

/-! ### Flushing and warming up -/

theorem runFill_eq (s : Service) : s.runFill = (s.step (.fill 0)).getD s := by
  cases h : s.fills <;> rw [runFill, step, fillAt, h] <;> rfl

/-- To flush is to run the fills in the order they were scheduled. -/
theorem flush_eq_run (s : Service) :
    s.flush = s.run (List.replicate s.fills.length (.fill 0)) := by
  rw [flush]
  generalize s.fills = os
  induction os generalizing s with
  | nil => rfl
  | cons o os ih =>
    rw [List.foldl_cons, List.length_cons, List.replicate_succ, run_cons, ih, runFill_eq]

theorem insertAll_eq_run (s : Service) (os : List Order) (h : s.fills = []) :
    (s.insertAll os).2 =
      ({ s with fills := os } : Service).run (List.replicate os.length (.fill 0)) := by
  induction os generalizing s with
  | nil =>
    obtain ⟨store, cache, outage, lookups, fills⟩ := s
    cases h
    rfl
  | cons o os ih =>
    rw [insertAll, List.length_cons, List.replicate_succ, run_cons]
    exact ih (s.insert o).2 h

theorem flush_keeps (s : Service) :
    s.flush.store = s.store ∧ s.flush.outage = s.outage ∧ s.flush.fills = [] := by
  suffices hkeeps : ∀ (os : List Order) (s : Service), s.fills = os →
      (os.foldl (fun s _ => s.runFill) s).store = s.store ∧
      (os.foldl (fun s _ => s.runFill) s).outage = s.outage ∧
      (os.foldl (fun s _ => s.runFill) s).fills = [] from hkeeps s.fills s rfl
  intro os
  induction os with
  | nil => exact fun s h => ⟨rfl, rfl, h⟩
  | cons o os ih =>
    intro s h
    obtain ⟨hstore, houtage, hfills⟩ := ih s.runFill (by rw [runFill, h]; rfl)
    rw [List.foldl_cons]
    refine ⟨hstore.trans ?_, houtage.trans ?_, hfills⟩ <;> rw [runFill, h] <;> rfl

/-- To warm up is to flush, to read the most recent orders and to put them in, in this order. -/
theorem warm_eq_run (s : Service) (limit : Nat) {os : List Order} (h : s.last limit = .ok os)
    (hos : os ≠ []) :
    (s.warm limit).2 = s.run (List.replicate s.fills.length (.fill 0) ++
      .warm limit :: List.replicate os.length (.fill 0)) := by
  obtain ⟨hstore, houtage, hfills⟩ := s.flush_keeps
  have hlast : s.flush.last limit = .ok os := by
    rw [last, reach, hstore, houtage]
    exact h
  have hwarm : (s.warm limit).2 = (s.flush.insertAll os).2 := by
    rw [warm, h]
    cases os with
    | nil => exact absurd rfl hos
    | cons o os => rfl
  rw [hwarm, run_append, ← flush_eq_run, run_cons, insertAll_eq_run s.flush os hfills, step, hlast,
    hfills]
  rfl

/-! ## What a step keeps -/

/-- The store answers, the cache is in order, and both hold orders under their identities. -/
structure Sound (s : Service) : Prop where
  cache : s.cache.Sound
  working : s.outage = none
  keyed : s.store.Keyed
  entries : ∀ u v, s.cache.cached? u = some v → v.uid = u

variable {s s' : Service} {o v : Order} {uid : String}

theorem sound_opened {backend : CacheBackend} {capacity : Nat} {cache : OrderCache}
    (h : OrderCache.build backend capacity = .ok cache) (orders : List Order) :
    (opened orders cache).Sound := by
  obtain ⟨hcache, hempty⟩ := OrderCache.sound_build h
  refine ⟨hcache, rfl, OrderStore.keyed_ofOrders orders, fun u v hv => ?_⟩
  rw [opened, hempty] at hv
  cases hv

theorem Sound.save (h : s.Sound) (o : Order) :
    s.save o = (.ok (), { s with store := s.store.save o, fills := s.fills ++ [o] }) := by
  rw [Service.save, write, reach, h.working]
  rfl

theorem Sound.last (h : s.Sound) (limit : Nat) : s.last limit = .ok (s.store.last limit) := by
  rw [Service.last, reach, h.working]

/-- A lookup gives what the cache holds, or else what the store holds; that is then on its way into
the cache. -/
theorem Sound.get (h : s.Sound) (hu : uid ≠ "") : ∃ cache lookups fills,
    (s.get uid).2 = { s with cache, lookups, fills := s.fills ++ fills } ∧ cache.Sound ∧
    (∀ u, cache.cached? u = s.cache.cached? u) ∧ (∀ v ∈ fills, s.store.find? uid = some v) ∧
    ∀ v, s.store.find? uid = some v → (s.get uid).1 = .ok ((s.cache.cached? uid).getD v) := by
  obtain ⟨cache, hget, hcache, hentries⟩ := h.cache.get uid
  have hempty : uid.isEmpty = false := by
    rw [Bool.eq_false_iff, ne_eq, String.isEmpty_iff]
    exact hu
  rw [Service.get, hempty, lookUp, hget]
  cases hentry : s.cache.cached? uid with
  | some w =>
    exact ⟨cache, s.lookups, [], by rw [List.append_nil]; rfl, hcache, hentries,
      fun v hv => (nomatch hv), fun v hv => rfl⟩
  | none =>
    simp only [Bool.false_eq_true, if_false, fetch, reach, h.working, OrderStore.fetch]
    cases hfind : s.store.find? uid with
    | none =>
      exact ⟨cache, _, [], by rw [List.append_nil], hcache, hentries, fun v hv => (nomatch hv),
        fun v hv => nomatch hv⟩
    | some w =>
      refine ⟨cache, _, [w], rfl, hcache, hentries, fun v hv => ?_, fun v hv => ?_⟩
      · rw [List.eq_of_mem_singleton hv]
      · cases hv
        rfl

theorem Sound.fillAt (h : s.Sound) {i : Nat} (hv : s.fills[i]? = some v) : ∃ cache,
    s.fillAt i = some { s with cache, fills := s.fills.eraseIdx i } ∧ cache.Sound ∧
      cache.cached? v.uid = some v ∧
      ∀ u w, u ≠ v.uid → cache.cached? u = some w → s.cache.cached? u = some w := by
  obtain ⟨cache, hset, hcache, hself, hothers⟩ := h.cache.set v
  refine ⟨cache, ?_, hcache, hself, hothers⟩
  rw [Service.fillAt, hv, Option.map_some, insert, hset]

theorem Sound.of_fillAt (h : s.Sound) {i : Nat} (hs : s.fillAt i = some s') :
    ∃ v ∈ s.fills, ∃ cache, s' = { s with cache, fills := s.fills.eraseIdx i } ∧ cache.Sound ∧
      cache.cached? v.uid = some v ∧
      ∀ u w, u ≠ v.uid → cache.cached? u = some w → s.cache.cached? u = some w := by
  obtain ⟨v, hv, -⟩ := Option.map_eq_some_iff.1 hs
  obtain ⟨cache, he, hcache⟩ := h.fillAt hv
  exact ⟨v, List.mem_of_getElem? hv, cache, Option.some.inj (hs.symm.trans he), hcache⟩

theorem Sound.step (h : s.Sound) {action : Action} (hs : s.step action = some s') :
    s'.Sound := by
  cases action with
  | get uid =>
    cases hs
    by_cases hu : uid = ""
    · rw [hu]
      exact h
    obtain ⟨cache, lookups, fills, he, hcache, hentries, -⟩ := h.get hu
    rw [he]
    exact ⟨hcache, h.working, h.keyed, fun u v hv => h.entries u v ((hentries u).symm.trans hv)⟩
  | save o =>
    cases hs
    rw [h.save]
    exact ⟨h.cache, h.working, h.keyed.save o, h.entries⟩
  | last limit =>
    cases hs
    exact h
  | warm limit =>
    rw [Service.step, h.last] at hs
    cases hs
    exact ⟨h.cache, h.working, h.keyed, h.entries⟩
  | fill i =>
    obtain ⟨v, -, cache, rfl, hcache, hself, hothers⟩ := h.of_fillAt hs
    refine ⟨hcache, h.working, h.keyed, fun u w hw => ?_⟩
    by_cases hu : u = v.uid
    · rw [hu] at hw ⊢
      exact congrArg Order.uid (Option.some.inj (hw.symm.trans hself))
    · exact h.entries u w (hothers u w hu hw)

theorem Sound.run (h : s.Sound) (actions : List Action) : (s.run actions).Sound :=
  runSteps_keeps (fun h hs => h.step hs) h actions

/-! ## Lookups after a save -/

/-- The versions of an order that the cache holds or that are on their way into it. -/
def copies (s : Service) (uid : String) : List Order :=
  (s.cache.cached? uid).toList ++ s.fills.filter (·.uid == uid)

/-- The order is in the store, and under its identity the cache holds and will hold nothing else
but versions in `others`. -/
structure Recalls (o : Order) (others : List Order) (s : Service) : Prop where
  stored : s.store.find? o.uid = some o
  copies : ∀ v ∈ s.copies o.uid, v = o ∨ v ∈ others

variable {others : List Order}

theorem mem_copies : v ∈ s.copies uid ↔
    s.cache.cached? uid = some v ∨ v ∈ s.fills ∧ v.uid = uid := by
  rw [copies, List.mem_append, Option.mem_toList, List.mem_filter, beq_iff_eq]

theorem Sound.recalls_save (h : s.Sound) (o : Order) :
    (s.save o).2.Recalls o (s.copies o.uid) := by
  rw [h.save]
  refine ⟨?_, fun v hv => ?_⟩
  · rw [OrderStore.find?_save, if_pos rfl]
  · rcases mem_copies.1 hv with hv | ⟨hv, hu⟩
    · exact .inr (mem_copies.2 (.inl hv))
    rcases List.mem_append.1 hv with hv | hv
    · exact .inr (mem_copies.2 (.inr ⟨hv, hu⟩))
    · exact .inl (List.eq_of_mem_singleton hv)

/-- What the store gives is the order itself. -/
theorem Recalls.fills (h : s.Recalls o others) {fills : List Order}
    (hfills : ∀ v ∈ fills, s.store.find? v.uid = some v) {cache : OrderCache} {lookups : Nat}
    (hentries : ∀ u, cache.cached? u = s.cache.cached? u) :
    Recalls o others { s with cache, lookups, fills := s.fills ++ fills } := by
  refine ⟨h.stored, fun v hv => ?_⟩
  rcases mem_copies.1 hv with hv | ⟨hv, hu⟩
  · exact h.copies v (mem_copies.2 (.inl ((hentries _).symm.trans hv)))
  rcases List.mem_append.1 hv with hv | hv
  · exact h.copies v (mem_copies.2 (.inr ⟨hv, hu⟩))
  · have hfind := hfills v hv
    rw [hu, h.stored] at hfind
    exact .inl (Option.some.inj hfind).symm

/-- No call but another save of the order brings in another version. -/
theorem Recalls.step (h : s.Recalls o others) (hs : s.Sound) {action : Action}
    (hstep : s.step action = some s') (hlater : ∀ o', action = .save o' → o'.uid ≠ o.uid) :
    s'.Recalls o others := by
  cases action with
  | get uid =>
    cases hstep
    by_cases hu : uid = ""
    · rw [hu]
      exact h
    obtain ⟨cache, lookups, fills, he, -, hentries, hfills, -⟩ := hs.get hu
    rw [he]
    refine h.fills (fun v hv => ?_) hentries
    rw [hs.keyed uid v (hfills v hv)]
    exact hfills v hv
  | save o' =>
    cases hstep
    have hne := hlater o' rfl
    rw [hs.save]
    refine ⟨?_, fun v hv => ?_⟩
    · rw [OrderStore.find?_save, if_neg hne]
      exact h.stored
    · rcases mem_copies.1 hv with hv | ⟨hv, hu⟩
      · exact h.copies v (mem_copies.2 (.inl hv))
      rcases List.mem_append.1 hv with hv | hv
      · exact h.copies v (mem_copies.2 (.inr ⟨hv, hu⟩))
      · rw [List.eq_of_mem_singleton hv] at hu
        exact absurd hu hne
  | last limit =>
    cases hstep
    exact h
  | warm limit =>
    rw [Service.step, hs.last] at hstep
    cases hstep
    exact h.fills (fun v hv => hs.keyed.find?_of_mem_last hv) fun u => rfl
  | fill i =>
    obtain ⟨v, hmem, cache, rfl, -, hself, hothers⟩ := hs.of_fillAt hstep
    refine ⟨h.stored, fun w hw => h.copies w (mem_copies.2 ?_)⟩
    rcases mem_copies.1 hw with hw | ⟨hw, hu⟩
    · by_cases hu : o.uid = v.uid
      · rw [hu] at hw
        obtain rfl := Option.some.inj (hself.symm.trans hw)
        exact .inr ⟨hmem, hu.symm⟩
      · exact .inl (hothers _ w hu hw)
    · exact .inr ⟨List.mem_of_mem_eraseIdx hw, hu⟩

/-- Whatever is called after the save, and whenever the fills run. -/
theorem Sound.get_after_save (h : s.Sound) (ho : o.uid ≠ "") {actions : List Action}
    (hlater : ∀ o', .save o' ∈ actions → o'.uid ≠ o.uid) :
    ∃ v, (((s.save o).2.run actions).get o.uid).1 = .ok v ∧ (v = o ∨ v ∈ s.copies o.uid) := by
  have hsave : (s.save o).2.Sound := h.step (show s.step (.save o) = some _ from rfl)
  obtain ⟨hs, hrecalls⟩ : ((s.save o).2.run actions).Sound ∧
      ((s.save o).2.run actions).Recalls o (s.copies o.uid) := by
    refine runSteps_keeps_of_mem (P := fun t : Service => t.Sound ∧ t.Recalls o (s.copies o.uid))
      (fun hmem h hstep => ⟨h.1.step hstep, h.2.step h.1 hstep fun o' ho' => ?_⟩)
      ⟨hsave, h.recalls_save o⟩
    exact hlater o' (ho' ▸ hmem)
  obtain ⟨-, -, -, -, -, -, -, hget⟩ := hs.get ho
  refine ⟨_, hget o hrecalls.stored, ?_⟩
  cases hentry : ((s.save o).2.run actions).cache.cached? o.uid with
  | none => exact .inl rfl
  | some w => exact hrecalls.copies w (mem_copies.2 (.inl hentry))

/-- A version that is cached when another one is saved is what the next lookup gives. -/
theorem Sound.get_of_cached (h : s.Sound) (ho : o.uid ≠ "") (hv : s.cache.cached? o.uid = some v) :
    ((s.save o).2.get o.uid).1 = .ok v := by
  have hsave : (s.save o).2.Sound := h.step (show s.step (.save o) = some _ from rfl)
  obtain ⟨-, -, -, -, -, -, -, hget⟩ := hsave.get ho
  have hentry : (s.save o).2.cache.cached? o.uid = some v := by
    rw [h.save]
    exact hv
  rw [hget o (h.recalls_save o).stored, hentry]
  rfl

/-- A version that was saved and has come into the cache hides the next one that is saved. -/
theorem Sound.get_hidden (h : s.Sound) (hfills : s.fills = []) (huid : v.uid = o.uid)
    (ho : o.uid ≠ "") : (((s.run [.save v, .fill 0]).save o).2.get o.uid).1 = .ok v := by
  refine (h.run [.save v, .fill 0]).get_of_cached ho ?_
  have hsave : (s.save v).2.Sound := h.step (show s.step (.save v) = some _ from rfl)
  have hline : (s.save v).2.fills[0]? = some v := by
    rw [h.save, hfills]
    rfl
  obtain ⟨cache, hfill, -, hself, -⟩ := hsave.fillAt hline
  have hrun : s.run [.save v, .fill 0] = ((s.save v).2.fillAt 0).getD (s.save v).2 := rfl
  rw [hrun, hfill, ← huid]
  exact hself

/-- Fills that run in another order than they were scheduled leave an old version in the cache, also
when none is left to run. -/
theorem Sound.cached_of_late_fill (h : s.Sound) (hfills : s.fills = []) (huid : v.uid = o.uid) :
    (s.run [.save v, .save o, .fill 1, .fill 0]).fills = [] ∧
      (s.run [.save v, .save o, .fill 1, .fill 0]).store.find? o.uid = some o ∧
      (s.run [.save v, .save o, .fill 1, .fill 0]).cache.cached? o.uid = some v := by
  have hsave : s.run [.save v, .save o] =
      { s with store := (s.store.save v).save o, fills := [v, o] } := by
    have hfirst : (s.save v).2.Sound := h.step (show s.step (.save v) = some _ from rfl)
    change ((s.save v).2.save o).2 = _
    rw [hfirst.save, h.save, hfills]
    rfl
  have hsaved := h.run [.save v, .save o]
  rw [hsave] at hsaved
  obtain ⟨cache, hfill, -⟩ := hsaved.fillAt (i := 1) (v := o) rfl
  have hfilled := hsaved.step (show Service.step _ (.fill 1) = some _ from hfill)
  obtain ⟨cache', hfill', -, hself, -⟩ := hfilled.fillAt (i := 0) (v := v) rfl
  have hrun : s.run [.save v, .save o, .fill 1, .fill 0] =
      { s with store := (s.store.save v).save o, cache := cache', fills := [] } := by
    change ((((s.run [.save v, .save o]).fillAt 1).getD _).fillAt 0).getD _ = _
    rw [hsave, hfill, Option.getD_some, hfill', Option.getD_some]
    rfl
  rw [hrun]
  refine ⟨rfl, ?_, huid ▸ hself⟩
  rw [OrderStore.find?_save, if_pos rfl]

/-- An order that is saved while no other version of it is in the cache or on its way there is what
lookups give, as long as it is not saved again. In any case they give that order or one of those
versions. -/
theorem run_get_after_save {backend : CacheBackend} {capacity : Nat} {cache : OrderCache}
    (hcache : OrderCache.build backend capacity = .ok cache) (orders : List Order)
    (before after : List Action) {o : Order} (ho : o.uid ≠ "")
    (hlater : ∀ o', .save o' ∈ after → o'.uid ≠ o.uid) :
    (((opened orders cache).run before).save o).1 = .ok () ∧
      ∃ v, (((((opened orders cache).run before).save o).2.run after).get o.uid).1 = .ok v ∧
        (v = o ∨ v ∈ ((opened orders cache).run before).copies o.uid) := by
  have h := (sound_opened hcache orders).run before
  refine ⟨?_, h.get_after_save ho hlater⟩
  rw [h.save]

/-- An order of which only its identity and its track number are of interest. -/
def tracked (uid track : String) : Order := { (default : Order) with uid, trackNumber := track }

theorem get_after_first_save : ∃ cache, OrderCache.build .lru 16 = .ok cache ∧
    (tracked "a" "1").uid ≠ "" ∧
    (∀ o', .save o' ∈ [Action.fill 0, .get "b", .save (tracked "b" "1")] →
      o'.uid ≠ (tracked "a" "1").uid) ∧
    (((((opened [] cache).run []).save (tracked "a" "1")).2.run
      [.fill 0, .get "b", .save (tracked "b" "1")]).get "a").1 = .ok (tracked "a" "1") := by
  have hcache : OrderCache.build .lru 16 =
      .ok (.lru { cache := ⟨∅, .empty, 16⟩, metrics := { backend := "lru" } }) := rfl
  have hlater : ∀ o', .save o' ∈ [Action.fill 0, .get "b", .save (tracked "b" "1")] →
      o'.uid ≠ (tracked "a" "1").uid := by
    intro o' h
    simp only [List.mem_cons, reduceCtorEq, Action.save.injEq, List.not_mem_nil, or_false,
      false_or] at h
    rw [h]
    decide
  have hnonempty : (tracked "a" "1").uid ≠ "" := by decide
  obtain ⟨-, v, hget, hv⟩ := run_get_after_save hcache [] [] _ hnonempty hlater
  refine ⟨_, hcache, hnonempty, hlater, hget.trans (congrArg Except.ok ?_)⟩
  refine hv.resolve_right fun hmem => ?_
  rcases mem_copies.1 hmem with hentry | ⟨hfill, -⟩
  · rw [show ((opened [] _).run []).cache.cached? _ = none from
      (OrderCache.sound_build hcache).2 _] at hentry
    cases hentry
  · cases hfill

/-- The first version is in the cache when the second one is saved, and is found after that. -/
theorem get_hidden_by_first : ∃ cache, OrderCache.build .lru 16 = .ok cache ∧
    (((opened [] cache).run [.save (tracked "a" "1"), .fill 0]).save (tracked "a" "2")).1 =
      .ok () ∧
    ((((opened [] cache).run [.save (tracked "a" "1"), .fill 0]).save
      (tracked "a" "2")).2.get "a").1 = .ok (tracked "a" "1") ∧
    tracked "a" "1" ≠ tracked "a" "2" := by
  have hcache : OrderCache.build .lru 16 =
      .ok (.lru { cache := ⟨∅, .empty, 16⟩, metrics := { backend := "lru" } }) := rfl
  have h := sound_opened hcache []
  refine ⟨_, hcache, ?_, ?_, by decide⟩
  · rw [(h.run [.save (tracked "a" "1"), .fill 0]).save]
  · exact h.get_hidden (o := tracked "a" "2") rfl rfl (by decide)

end OrderDesk.Service
