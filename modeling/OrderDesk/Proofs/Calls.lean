/-!
# Sequences of calls

An object answers calls one after another, and each call may change it. Two objects that answer
alike whatever they are called with answer every sequence of calls alike (`runCalls_eq`). What every
call keeps holds after any sequence of calls, and with it what follows for the answers
(`runCalls_answers`); the same goes for steps (`runSteps_keeps`). Where every step adds to a record
what is told of it, the record is what is told of them all (`record_runSteps`).
-/

namespace OrderDesk

section
variable {σ τ κ ρ : Type}

/-- The answers to the calls, and the object after them. -/
def runCalls (call : σ → κ → ρ × σ) : σ → List κ → List ρ × σ
  | s, [] => ([], s)
  | s, c :: cs =>
    let (r, s) := call s c
    let (rs, s) := runCalls call s cs
    (r :: rs, s)

variable {call : σ → κ → ρ × σ} {call' : τ → κ → ρ × τ} {R : σ → τ → Prop}

theorem runCalls_eq (hcall : ∀ {s t} c, R s t →
      (call s c).1 = (call' t c).1 ∧ R (call s c).2 (call' t c).2)
    {s : σ} {t : τ} (h : R s t) (cs : List κ) :
    (runCalls call s cs).1 = (runCalls call' t cs).1 ∧
      R (runCalls call s cs).2 (runCalls call' t cs).2 := by
  induction cs generalizing s t with
  | nil => exact ⟨rfl, h⟩
  | cons c cs ih =>
    obtain ⟨hr, h⟩ := hcall c h
    obtain ⟨hrs, h⟩ := ih h
    exact ⟨List.cons_eq_cons.2 ⟨hr, hrs⟩, h⟩

theorem runCalls_append (s : σ) (cs cs' : List κ) :
    (runCalls call s (cs ++ cs')).2 = (runCalls call (runCalls call s cs).2 cs').2 := by
  induction cs generalizing s with
  | nil => rfl
  | cons c cs ih => exact ih _

/-- What every call keeps holds after any calls. -/
theorem runCalls_keeps {P : σ → Prop} (hcall : ∀ {s} c, P s → P (call s c).2) {s : σ} (h : P s)
    (cs : List κ) : P (runCalls call s cs).2 := by
  induction cs generalizing s with
  | nil => exact h
  | cons c cs ih => exact ih (hcall c h)

/-- What holds of every answer, as long as something holds that every call keeps. -/
theorem runCalls_answers {P : σ → Prop} {Q : ρ → Prop}
    (hcall : ∀ {s} c, P s → Q (call s c).1 ∧ P (call s c).2) {s : σ} (h : P s) (cs : List κ) :
    (∀ r ∈ (runCalls call s cs).1, Q r) ∧ P (runCalls call s cs).2 := by
  induction cs generalizing s with
  | nil => exact ⟨nofun, h⟩
  | cons c cs ih =>
    obtain ⟨hr, h⟩ := hcall c h
    obtain ⟨hrs, h⟩ := ih h
    exact ⟨List.forall_mem_cons.2 ⟨hr, hrs⟩, h⟩

/-! ## Steps that may not be possible -/

/-- The object after these steps; those that cannot be taken are left out. -/
def runSteps (step : σ → κ → Option σ) (s : σ) (steps : List κ) : σ :=
  steps.foldl (fun s k => (step s k).getD s) s

/-- What each of these steps keeps holds after them. -/
theorem runSteps_keeps_of_mem {step : σ → κ → Option σ} {P : σ → Prop} {steps : List κ}
    (hstep : ∀ {s s' k}, k ∈ steps → P s → step s k = some s' → P s') {s : σ} (h : P s) :
    P (runSteps step s steps) := by
  induction steps generalizing s with
  | nil => exact h
  | cons k steps ih =>
    refine ih (fun hk => hstep (List.mem_cons_of_mem _ hk)) (s := (step s k).getD s) ?_
    cases hs : step s k with
    | none => exact h
    | some s' => exact hstep List.mem_cons_self h hs

/-- What every step keeps holds after any steps. -/
theorem runSteps_keeps {step : σ → κ → Option σ} {P : σ → Prop}
    (hstep : ∀ {s s' k}, P s → step s k = some s' → P s') {s : σ} (h : P s) (steps : List κ) :
    P (runSteps step s steps) :=
  runSteps_keeps_of_mem (fun _ => hstep) h

/-- What is told of these steps, the latest first; nothing is told of those that cannot be taken. -/
def tellSteps {ε : Type} (step : σ → κ → Option σ) (tell : σ → κ → σ → List ε) :
    σ → List κ → List ε
  | _, [] => []
  | s, k :: steps =>
    match step s k with
    | some s' => tellSteps step tell s' steps ++ tell s k s'
    | none => tellSteps step tell s steps

/-- A record that tells of every step, and of nothing else, tells of all. -/
theorem record_runSteps {ε : Type} {step : σ → κ → Option σ} {tell : σ → κ → σ → List ε}
    (record : σ → List ε)
    (hstep : ∀ {s s' k}, step s k = some s' → record s' = tell s k s' ++ record s) (s : σ)
    (steps : List κ) :
    record (runSteps step s steps) = tellSteps step tell s steps ++ record s := by
  induction steps generalizing s with
  | nil => rfl
  | cons k steps ih =>
    change record (runSteps step ((step s k).getD s) steps) = _
    rw [tellSteps]
    cases hs : step s k with
    | none => exact ih s
    | some s' =>
      rw [Option.getD_some, ih s', hstep hs, List.append_assoc]

end

end OrderDesk
