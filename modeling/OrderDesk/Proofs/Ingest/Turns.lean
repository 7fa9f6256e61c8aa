import OrderDesk.Ingest.Timeline
import OrderDesk.Proofs.Ingest.Intake

/-!
# The turns of a timeline

A timeline gives the tasks of a pipeline their turns and tells them what its link says. As long as
no failures are tried out, each turn is a step of the pipeline at the end of the channel
(`Timeline.stepTask_advance`), so what holds after any steps holds along a timeline.
-/

namespace OrderDesk

namespace Link

variable {l l' : Link} {a : Answer} {b : Burial}

/-- No failures are tried out. -/
structure Faultless (l : Link) : Prop where
  reads : l.readFaults = []
  commits : l.commitFaults = []

theorem Faultless.answerBurial (hf : l.Faultless) (h : l.answerBurial b = (some a, l')) :
    l.channel.answerBurial b a = some l'.channel := by
  cases b with
  | toSink letter =>
    simp only [Link.answerBurial] at h
    split at h <;> cases h <;> rfl
  | toCommit letter =>
    simp only [Link.answerBurial, answerCommit, hf.commits] at h
    cases h
    rfl

theorem Faultless.answerSettle (hf : l.Faultless) {call : Settle}
    (h : l.answerSettle call = (some a, l')) :
    l.channel.answerSettle call a = some l'.channel := by
  cases call with
  | acknowledging m =>
    simp only [Link.answerSettle, answerCommit, hf.commits] at h
    cases h
    rfl
  | burying b => exact hf.answerBurial h

theorem Faultless.answerConsume (hf : l.Faultless) {call : Consume} {now : Time}
    (h : l.answerConsume now call = (some a, l')) :
    l.channel.answerConsume call a = some l'.channel := by
  cases call with
  | reading since =>
    simp only [Link.answerConsume, answerRead, hf.reads] at h
    split at h
    · rename_i hfault
      cases hfault
    split at h
    · rename_i m channel ht
      cases h
      simp only [Channel.answerConsume, ht, if_true]
    rename_i ht
    split at h
    · rename_i he
      cases h
      exact if_pos he
    rename_i he
    split at h
    · cases h
      refine if_pos ?_
      rw [Bool.not_eq_true] at he
      rw [Channel.queue_eq_nil ht, he]
      rfl
    · cases h
  | resting till =>
    simp only [Link.answerConsume] at h
    split at h <;> cases h
    rfl
  | refusing b error => exact hf.answerBurial h

end Link

namespace Timeline

variable {σ : Type} {t t' : Timeline σ} {a : Answer} {task : Task}

/-- A task is told what the channel may tell it. -/
theorem answer_channel (hf : t.link.Faultless) (h : t.answer task = (some a, t')) :
    t.pipeline.answer t.link.channel a task = some t'.link.channel := by
  cases task with
  | loop =>
    rw [Pipeline.answer]
    cases hloop : t.pipeline.loop with
    | consuming call =>
      simp only [answer, hloop, Prod.mk.injEq] at h
      obtain ⟨ha, rfl⟩ := h
      exact hf.answerConsume (Prod.ext ha rfl)
    | rejecting call =>
      simp only [answer, hloop, Prod.mk.injEq] at h
      obtain ⟨ha, rfl⟩ := h
      exact hf.answerSettle (Prod.ext ha rfl)
    | idle | finished _ | aborted =>
      simp only [answer, hloop, Prod.mk.injEq, reduceCtorEq, false_and] at h
    | _ =>
      simp only [answer, hloop, Prod.mk.injEq] at h
      obtain ⟨-, rfl⟩ := h
      rfl
  | dispatch id =>
    rw [Pipeline.answer]
    simp only [answer] at h
    split at h
    · cases h
    · rename_i d hd
      rw [hd, Option.bind_some]
      cases hstage : d.stage with
      | settling call =>
        simp only [hstage, Prod.mk.injEq] at h
        obtain ⟨ha, rfl⟩ := h
        exact hf.answerSettle (Prod.ext ha rfl)
      | processing =>
        simp only [hstage] at h
        split at h <;> cases h
        rfl
      | queued =>
        simp only [hstage] at h
        cases h
        rfl
      | done =>
        simp only [hstage] at h
        cases h

theorem answer_pipeline (t : Timeline σ) (task : Task) :
    (t.answer task).2.pipeline = t.pipeline := by
  cases task with
  | loop =>
    simp only [answer]
    split <;> rfl
  | dispatch id =>
    simp only [answer]
    split
    · rfl
    split
    · rfl
    · split <;> rfl
    · rfl
    · rfl

/-- A turn is a step of the pipeline at the end of the channel. -/
theorem stepTask_advance {processor : Processor σ} (hf : t.link.Faultless)
    (h : t.stepTask processor task = some t') (i : Inlet) (hi : i.channel = t.link.channel) :
    ∃ a, Intake.step ⟨t.pipeline, i⟩ (.advance task t.clock a) =
      some ⟨t'.pipeline, { i with channel := t'.link.channel }⟩ := by
  unfold stepTask at h
  split at h
  · cases h
  rename_i a t₁ ha
  have hpipeline : t₁.pipeline = t.pipeline := by
    rw [← t.answer_pipeline task, ha]
  obtain ⟨p, hp, he⟩ := Option.map_eq_some_iff.1 h
  rw [hpipeline] at hp
  refine ⟨a, ?_⟩
  simp only [Intake.step, hi, answer_channel hf ha, hp]
  have hsame : t'.pipeline = p ∧ t'.link = t₁.link := by
    rw [← he]
    dsimp only
    split <;> exact ⟨rfl, rfl⟩
  rw [hsame.1, hsame.2]

end Timeline

end OrderDesk
