import OrderDesk.Proofs.Service.CacheAside

/-!
# Where orders come from

Any number of calls are under way on one service, and their steps, the scheduled fills and the
insertions of warm-ups come in any order (`Traffic.step`). A call can be given up between its steps,
and every access of the store or the cache may fail instead of being made.

An order reaches the cache as a fill after a lookup, as a fill after a save, or in a warm-up, and it
is answered from the cache or from the store. On each of these ways it bears its own identity and
comes from the store, where it was at the start or where a save has put it (`Traffic.Genuine`). So
what is cached or answered under an identity was held by the store under it at some earlier moment
(`Traffic.run_genuine`).
-/

namespace OrderDesk

/-! ## Steps of calls -/

/-- What a call, or the insertion of an order in a warm-up, does next. -/
inductive Activity where
  /-- A lookup goes to the cache. -/
  | look (uid : String)
  /-- A lookup that missed goes to the store. -/
  | fetch (uid : String)
  /-- A lookup has an order of the store. It schedules the fill and answers. -/
  | hand (uid : String) (o : Order)
  /-- A save goes to the store. -/
  | write (o : Order)
  /-- A save that has written schedules the fill. -/
  | announce (o : Order)
  /-- A warm-up reads the latest orders. -/
  | survey (limit : Nat)
  /-- A warm-up puts in one of its orders. -/
  | insert (o : Order)

/-- What a step leaves: the service, what is to be done next, and the order that was answered. -/
structure Activity.Outcome where
  service : Service
  next : List Activity := []
  answer : Option (String × Order) := none

/-- An access of the store or the cache, or the error with which it fails instead. -/
def Service.attempt {α : Type} (s : Service) (error? : Option OrderError)
    (access : Service → Except OrderError α × Service) : Except OrderError α × Service :=
  match error? with
  | some e => (.error e, s)
  | none => access s

/-- A step, whose access of the store or the cache fails if there is an error. -/
def Activity.step (s : Service) (error? : Option OrderError) : Activity → Activity.Outcome
  | .look uid =>
    match s.attempt error? (·.lookUp uid) with
    | (.error _, s) => { service := s }
    | (.ok (some o), s) => { service := s, answer := some (uid, o) }
    | (.ok none, s) => { service := s, next := [.fetch uid] }
  | .fetch uid =>
    match s.attempt error? (·.fetch uid) with
    | (.error _, s) => { service := s }
    | (.ok o, s) => { service := s, next := [.hand uid o] }
  | .hand uid o => { service := s.schedule o, answer := some (uid, o) }
  | .write o =>
    match s.attempt error? (·.write o) with
    | (.error _, s) => { service := s }
    | (.ok (), s) => { service := s, next := [.announce o] }
  | .announce o => { service := s.schedule o }
  | .survey limit =>
    match s.attempt error? fun s => (s.last limit, s) with
    | (.error _, s) => { service := s }
    | (.ok os, s) => { service := s, next := os.map .insert }
  | .insert o => { service := (s.attempt error? (·.insert o)).2 }

/-! ## Many calls at a time -/

/-- A service with the calls that are under way. -/
structure Traffic where
  service : Service
  tasks : List Activity := []
  /-- The orders that lookups have answered, with the identities they were asked for. -/
  answers : List (String × Order) := []

namespace Traffic

inductive Move where
  | get (uid : String)
  | save (o : Order)
  | warm (limit : Nat)
  /-- A call takes its next step, in which an access may fail. -/
  | advance (i : Nat) (error? : Option OrderError)
  /-- A call or an insertion is given up. -/
  | cancel (i : Nat)
  /-- One of the scheduled fills runs, or fails. -/
  | fill (i : Nat) (error? : Option OrderError)

/-- One move; `none` if it cannot be made. -/
def step (t : Traffic) : Move → Option Traffic
  | .get uid => if uid.isEmpty then none else some { t with tasks := .look uid :: t.tasks }
  | .save o => some { t with tasks := .write o :: t.tasks }
  | .warm limit => some { t with tasks := .survey limit :: t.tasks }
  | .advance i error? =>
    t.tasks[i]?.map fun task =>
      let outcome := task.step t.service error?
      { service := outcome.service
        tasks := outcome.next ++ t.tasks.eraseIdx i
        answers := outcome.answer.toList ++ t.answers }
  | .cancel i => some { t with tasks := t.tasks.eraseIdx i }
  | .fill i error? =>
    t.service.fills[i]?.map fun o =>
      let waiting : Service := { t.service with fills := t.service.fills.eraseIdx i }
      { t with service := (waiting.attempt error? (·.insert o)).2 }

/-- The moves in this order; those that cannot be made are left out. -/
def run (t : Traffic) (moves : List Move) : Traffic :=
  runSteps step t moves

/-- A service that has just been set up. -/
def opened (orders : List Order) (cache : OrderCache) : Traffic :=
  { service := { store := .ofOrders orders, cache } }

theorem run_append_singleton (t : Traffic) (moves : List Move) (move : Move) :
    t.run (moves ++ [move]) = ((t.run moves).step move).getD (t.run moves) := by
  rw [run, runSteps, List.foldl_append]
  rfl

end Traffic

/-! ## What is vouched for -/

section
variable {P Q : String → Order → Prop} {s : Service} {task : Activity} {error? : Option OrderError}
  {uid : String} {o : Order}

/-- The order that a task carries is vouched for. -/
def Activity.Genuine (P : String → Order → Prop) : Activity → Prop
  | .look _ | .fetch _ | .write _ | .survey _ => True
  | .hand uid o => o.uid = uid ∧ P uid o
  | .announce o | .insert o => P o.uid o

/-- The orders of the store, of the cache and of the fills are vouched for, each under its own
identity. -/
structure Service.Genuine (P : String → Order → Prop) (s : Service) : Prop where
  sound : s.cache.Sound
  keyed : s.store.Keyed
  stored : ∀ u o, s.store.find? u = some o → P u o
  cached : ∀ u o, s.cache.cached? u = some o → o.uid = u ∧ P u o
  fills : ∀ o ∈ s.fills, P o.uid o

/-- All of this, and the answers and what is under way. -/
structure Traffic.Genuine (P : String → Order → Prop) (t : Traffic) : Prop where
  service : t.service.Genuine P
  tasks : ∀ task ∈ t.tasks, task.Genuine P
  answers : ∀ u o, (u, o) ∈ t.answers → o.uid = u ∧ P u o

/-- What a step leaves, and what it hands on, is vouched for. -/
structure Activity.Outcome.Genuine (P : String → Order → Prop) (r : Activity.Outcome) : Prop where
  service : r.service.Genuine P
  next : ∀ task ∈ r.next, task.Genuine P
  answer : ∀ u o, (u, o) ∈ r.answer → o.uid = u ∧ P u o

theorem Activity.Genuine.mono (h : task.Genuine P) (hPQ : ∀ u o, P u o → Q u o) :
    task.Genuine Q := by
  cases task with
  | look | fetch | write | survey => trivial
  | hand uid o => exact ⟨h.1, hPQ uid o h.2⟩
  | announce o | insert o => exact hPQ o.uid o h

theorem Traffic.Genuine.mono {t : Traffic} (h : t.Genuine P) (hPQ : ∀ u o, P u o → Q u o) :
    t.Genuine Q where
  service :=
    { sound := h.service.sound
      keyed := h.service.keyed
      stored := fun u o ho => hPQ u o (h.service.stored u o ho)
      cached := fun u o ho => (h.service.cached u o ho).imp_right (hPQ u o)
      fills := fun o ho => hPQ o.uid o (h.service.fills o ho) }
  tasks task htask := (h.tasks task htask).mono hPQ
  answers u o ho := (h.answers u o ho).imp_right (hPQ u o)

namespace Service.Genuine

/-- A lookup in the cache finds what is vouched for and leaves the entries as they are. -/
theorem lookUp (h : s.Genuine P) (uid : String) :
    s.lookUp uid = (.ok (s.cache.cached? uid), { s with cache := (s.cache.get uid).2 }) ∧
      Service.Genuine P { s with cache := (s.cache.get uid).2 } := by
  obtain ⟨cache, hget, -⟩ := h.sound.get uid
  refine ⟨by rw [Service.lookUp, hget], h.sound.sound_get uid, h.keyed, h.stored, ?_, h.fills⟩
  intro u o ho
  exact h.cached u o ((h.sound.cached?_get uid u).symm.trans ho)

theorem schedule (h : s.Genuine P) (ho : P o.uid o) : (s.schedule o).Genuine P := by
  refine ⟨h.sound, h.keyed, h.stored, h.cached, fun v hv => ?_⟩
  rcases List.mem_append.1 hv with hv | hv
  · exact h.fills v hv
  · rw [List.eq_of_mem_singleton hv]
    exact ho

theorem insert (h : s.Genuine P) (ho : P o.uid o) : (s.insert o).2.Genuine P := by
  rw [insert_eq h.sound]
  refine ⟨h.sound.sound_set o, h.keyed, h.stored, fun u v hv => ?_, h.fills⟩
  have hset := h.sound.of_cached?_set hv
  split at hset
  · rename_i huid
    cases hset
    exact ⟨huid, huid ▸ ho⟩
  · exact h.cached u v hset

theorem save (h : s.Genuine P) (ho : P o.uid o) :
    Service.Genuine P { s with store := s.store.save o } := by
  refine ⟨h.sound, h.keyed.save o, fun u v hv => ?_, h.cached, h.fills⟩
  rw [OrderStore.find?_save] at hv
  split at hv
  · rename_i huid
    cases hv
    exact huid ▸ ho
  · exact h.stored u v hv

/-- An access that fails changes nothing. -/
theorem attempt {α : Type} {access : Service → Except OrderError α × Service} (h : s.Genuine P)
    (haccess : (access s).2.Genuine P) : (s.attempt error? access).2.Genuine P := by
  cases error? with
  | some e => exact h
  | none => exact haccess

end Service.Genuine

namespace Activity

theorem genuine_next {next : List Activity} (h : s.Genuine P)
    (hnext : ∀ task ∈ next, task.Genuine P) :
    Outcome.Genuine P { service := s, next } := by
  refine ⟨h, hnext, ?_⟩
  intro u v hv
  cases hv

theorem genuine_nothing (h : s.Genuine P) : Outcome.Genuine P { service := s } := by
  apply genuine_next h
  simp

theorem genuine_answer (h : s.Genuine P) (ho : o.uid = uid ∧ P uid o) :
    Outcome.Genuine P { service := s, answer := some (uid, o) } := by
  refine ⟨h, by simp, ?_⟩
  intro u v hv
  cases hv
  exact ho

theorem genuine_look (h : s.Genuine P) (uid : String) :
    ((look uid).step s none).Genuine P := by
  obtain ⟨hlook, hs⟩ := h.lookUp uid
  rw [Activity.step, Service.attempt, hlook]
  cases hc : s.cache.cached? uid with
  | none =>
    apply genuine_next hs
    simp [Activity.Genuine]
  | some o => exact genuine_answer hs (h.cached uid o hc)

theorem genuine_fetch (h : s.Genuine P) (uid : String) :
    ((fetch uid).step s none).Genuine P := by
  have hs : Service.Genuine P { s with lookups := s.lookups + 1 } :=
    ⟨h.sound, h.keyed, h.stored, h.cached, h.fills⟩
  rw [Activity.step, Service.attempt, Service.fetch]
  cases hr : s.reach (s.store.fetch uid) with
  | error e => exact genuine_nothing hs
  | ok o =>
    have ho := Service.fetch_eq_ok.1 (Service.reach_eq_ok.1 hr).2
    apply genuine_next hs
    simpa [Activity.Genuine] using ⟨h.keyed uid o ho, h.stored uid o ho⟩

/-- A write that succeeds brings its order into the store. -/
theorem genuine_write (h : s.Genuine P) (hvouched : (s.write o).1 = .ok () → P o.uid o) :
    ((write o).step s none).Genuine P := by
  rw [Activity.step, Service.attempt]
  rw [Service.write] at hvouched ⊢
  cases hr : s.reach (.ok ()) with
  | error e => exact genuine_nothing h
  | ok u =>
    rw [hr] at hvouched
    apply genuine_next (h.save (hvouched rfl))
    simpa [Activity.Genuine] using hvouched rfl

theorem genuine_survey (h : s.Genuine P) (limit : Nat) :
    ((survey limit).step s none).Genuine P := by
  rw [Activity.step, Service.attempt]
  cases hlast : s.last limit with
  | error e => exact genuine_nothing h
  | ok os =>
    apply genuine_next h
    intro task htask
    obtain ⟨o, ho, rfl⟩ := List.mem_map.1 htask
    rw [Service.last, Service.reach_eq_ok] at hlast
    obtain ⟨-, rfl⟩ := hlast.imp_right Except.ok.inj
    exact h.stored o.uid o (h.keyed.find?_of_mem_last ho)

/-- A step hands on what is vouched for, if the order of a write that succeeds is. -/
theorem Genuine.step (htask : task.Genuine P) (h : s.Genuine P)
    (hwrite : ∀ o, task = .write o → error? = none → (s.write o).1 = .ok () → P o.uid o) :
    (task.step s error?).Genuine P := by
  cases task with
  | hand uid o =>
    obtain ⟨rfl, ho⟩ := htask
    exact genuine_answer (h.schedule ho) ⟨rfl, ho⟩
  | announce o => exact genuine_nothing (h.schedule htask)
  | insert o => exact genuine_nothing (h.attempt (h.insert htask))
  | look uid =>
    cases error? with
    | some e => exact genuine_nothing h
    | none => exact genuine_look h uid
  | fetch uid =>
    cases error? with
    | some e => exact genuine_nothing h
    | none => exact genuine_fetch h uid
  | write o =>
    cases error? with
    | some e => exact genuine_nothing h
    | none => exact genuine_write h (hwrite o rfl rfl)
  | survey limit =>
    cases error? with
    | some e => exact genuine_nothing h
    | none => exact genuine_survey h limit

end Activity

end

/-! ## Runs -/

namespace Traffic

variable {P Q : String → Order → Prop} {t t' : Traffic} {move : Move} {uid : String} {o : Order}

theorem Genuine.step (h : t.Genuine P) (ht : t.step move = some t')
    (hwrite : ∀ i o, move = .advance i none → t.tasks[i]? = some (.write o) →
      (t.service.write o).1 = .ok () → P o.uid o) : t'.Genuine P := by
  have hbegin : ∀ task, task.Genuine P → Genuine P { t with tasks := task :: t.tasks } := by
    intro task htask
    refine ⟨h.service, fun x hx => ?_, h.answers⟩
    rcases List.mem_cons.1 hx with rfl | hx
    · exact htask
    · exact h.tasks x hx
  cases move with
  | get uid =>
    rw [Traffic.step] at ht
    split at ht
    · cases ht
    · cases ht
      exact hbegin (.look uid) trivial
  | save o =>
    cases ht
    exact hbegin (.write o) trivial
  | warm limit =>
    cases ht
    exact hbegin (.survey limit) trivial
  | advance i error? =>
    obtain ⟨task, htask, rfl⟩ := Option.map_eq_some_iff.1 ht
    have houtcome : (task.step t.service error?).Genuine P :=
      (h.tasks task (List.mem_of_getElem? htask)).step h.service
        fun o htask' herror => hwrite i o (herror ▸ rfl) (htask' ▸ htask)
    refine ⟨houtcome.service, fun x hx => ?_, fun u v hv => ?_⟩
    · rcases List.mem_append.1 hx with hx | hx
      · exact houtcome.next x hx
      · exact h.tasks x (List.mem_of_mem_eraseIdx hx)
    · rcases List.mem_append.1 hv with hv | hv
      · exact houtcome.answer u v (Option.mem_toList.1 hv)
      · exact h.answers u v hv
  | cancel i =>
    cases ht
    exact ⟨h.service, fun x hx => h.tasks x (List.mem_of_mem_eraseIdx hx), h.answers⟩
  | fill i error? =>
    obtain ⟨o, ho, rfl⟩ := Option.map_eq_some_iff.1 ht
    have hwaiting : Service.Genuine P { t.service with fills := t.service.fills.eraseIdx i } :=
      ⟨h.service.sound, h.service.keyed, h.service.stored, h.service.cached,
        fun v hv => h.service.fills v (List.mem_of_mem_eraseIdx hv)⟩
    have hvouched := h.service.fills o (List.mem_of_getElem? ho)
    exact ⟨hwaiting.attempt (hwaiting.insert hvouched), h.tasks, h.answers⟩

/-- After these moves the store holds the order under the identity, and it has been there from the
start, or the last of the moves is the write of a save that succeeds. -/
structure Enters (t : Traffic) (moves : List Move) (uid : String) (o : Order) : Prop where
  held : (t.run moves).service.store.find? uid = some o
  entry : moves = [] ∨ ∃ before i, moves = before ++ [.advance i none] ∧
    (t.run before).tasks[i]? = some (.write o) ∧ ((t.run before).service.write o).1 = .ok ()

/-- The order entered the store under the identity at some moment of the run. -/
def Entered (t : Traffic) (moves : List Move) (uid : String) (o : Order) : Prop :=
  ∃ before, before <+: moves ∧ t.Enters before uid o

theorem Entered.append {moves : List Move} (h : t.Entered moves uid o) (after : List Move) :
    t.Entered (moves ++ after) uid o := by
  obtain ⟨before, hleading, henters⟩ := h
  exact ⟨before, hleading.trans (List.prefix_append ..), henters⟩

theorem find?_of_write {i : Nat} (htask : t.tasks[i]? = some (.write o))
    (hwrite : (t.service.write o).1 = .ok ()) :
    ((t.step (.advance i none)).getD t).service.store.find? o.uid = some o := by
  rw [Traffic.step, htask, Option.map_some, Option.getD_some, Activity.step, Service.attempt]
  rw [Service.write] at hwrite ⊢
  cases hr : t.service.reach (.ok ()) with
  | error e =>
    rw [hr] at hwrite
    cases hwrite
  | ok u =>
    dsimp only
    rw [OrderStore.find?_save, if_pos rfl]

theorem genuine_opened {backend : CacheBackend} {capacity : Nat} {cache : OrderCache}
    (h : OrderCache.build backend capacity = .ok cache) (orders : List Order) :
    (opened orders cache).Genuine ((opened orders cache).Entered []) := by
  obtain ⟨hsound, hempty⟩ := OrderCache.sound_build h
  refine ⟨⟨hsound, OrderStore.keyed_ofOrders orders, ?_, ?_, ?_⟩, ?_, ?_⟩
  · exact fun u v hv => ⟨[], List.prefix_rfl, hv, .inl rfl⟩
  · intro u v hv
    exact absurd ((hempty u).symm.trans hv) (by simp)
  · simp [opened]
  · simp [opened]
  · simp [opened]

theorem Genuine.run (h : t.Genuine (t.Entered [])) (moves : List Move) :
    (t.run moves).Genuine (t.Entered moves) := by
  induction moves using List.reverseRecOn with
  | nil => exact h
  | append_singleton moves move ih =>
    have hmono := ih.mono fun u v hv => hv.append [move]
    rw [run_append_singleton]
    cases hstep : (t.run moves).step move with
    | none => exact hmono
    | some t' =>
      refine hmono.step hstep fun i o hmove htask hwrite => ⟨_, List.prefix_rfl, ?_, .inr ?_⟩
      · subst hmove
        rw [run_append_singleton]
        exact find?_of_write htask hwrite
      · exact ⟨moves, i, hmove ▸ rfl, htask, hwrite⟩

/-- Whatever calls are under way at the same time, in whatever order they take their steps, and
whichever of their accesses fail: an order that is cached or answered under an identity bears it,
and the store held it under that identity at some earlier moment, where it was from the start or
where the write of a save has put it. -/
theorem run_genuine {capacity : Nat} {cache : OrderCache}
    (hcache : OrderCache.build .lru capacity = .ok cache) (orders : List Order)
    (moves : List Move) {uid : String} {o : Order}
    (ho : ((opened orders cache).run moves).service.cache.cached? uid = some o ∨
      (uid, o) ∈ ((opened orders cache).run moves).answers) :
    o.uid = uid ∧ ∃ before, before <+: moves ∧ (opened orders cache).Enters before uid o := by
  have h := (genuine_opened hcache orders).run moves
  rcases ho with ho | ho
  · exact h.service.cached uid o ho
  · exact h.answers uid o ho

/-- A save whose write fails, then another one that is written while a lookup has begun, and the
fill. -/
theorem genuine_after_failed_save : ∃ cache, OrderCache.build .lru 2 = .ok cache ∧
    let first := Service.tracked "a" "1"
    let second := Service.tracked "a" "2"
    let moves := [Move.save first, .advance 0 (some (.storage "down")), .get "b", .save second,
      .advance 0 none, .advance 0 none, .fill 0 none]
    ((opened [] cache).run moves).service.cache.cached? "a" = some second ∧ second.uid = "a" ∧
      ∃ before, before <+: moves ∧ (opened [] cache).Enters before "a" second := by
  obtain ⟨cache, hcache⟩ : ∃ cache, OrderCache.build .lru 2 = .ok cache := ⟨_, rfl⟩
  refine ⟨cache, hcache, ?_⟩
  intro first second moves
  have hcached : ((opened [] cache).run moves).service.cache.cached? "a" = some second := by
    obtain ⟨cache', hset, -, hself, -⟩ := (OrderCache.sound_build hcache).1.set second
    change (cache.set second).2.cached? "a" = some second
    rw [hset]
    exact hself
  exact ⟨hcached, run_genuine hcache [] moves (.inl hcached)⟩

end Traffic

end OrderDesk
