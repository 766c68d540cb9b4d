import SourceDocs.Proofs.Synthesis.Output

set_option autoImplicit false

/-! # Concurrency: how many requests are active at once

A request is active from its start to its end, whether it is called or waits for its next call. Only
a start adds one, and only while there is room, so every step keeps the active requests within their
limit (`Step.length_active_le`); the calls under way are among them. After the plan there is one
request at a time. A clock changes nothing about that, and the largest number of calls it has seen
under way keeps within the limit as well (`Within`). -/

namespace SourceDocs

namespace Run

/-- Whether an event starts a request. -/
def Event.isBegin : Event → Bool
  | .begin => true
  | _ => false

/-- Whether an event answers a call. -/
def Event.isReply : Event → Bool
  | .reply _ _ => true
  | _ => false

variable {plan : List Job} {r r' : Run} {es : List Event}

/-! ## Active requests -/

theorem length_active_setPhase (r : Run) (number : Nat) (phase : Phase) :
    (r.setPhase number phase).active.length = r.active.length := by
  rw [setPhase_active, List.length_map]

theorem length_active_settle {a : ActiveJob} (o : Outcome)
    (hnodup : (r.active.map ActiveJob.number).Nodup) (ha : a ∈ r.active) :
    (r.settle a o).active.length + 1 = r.active.length := by
  rw [(active_perm_cons_filter hnodup ha).length_eq, settle_active, List.length_cons]

/-- **Every step keeps the active requests within their limit.** -/
theorem Step.length_active_le {e : Event} (h : Step r e r')
    (hle : r.active.length ≤ r.options.maxConcurrency) :
    r'.active.length ≤ r'.options.maxConcurrency := by
  have hsettle : ∀ (a : ActiveJob) (o : Outcome),
      (r.settle a o).active.length ≤ (r.settle a o).options.maxConcurrency := fun a o =>
    Nat.le_trans (List.length_filter_le _ _) hle
  cases h with
  | begin hqueued hroom =>
    rw [List.length_append, List.length_singleton]
    exact hroom
  | call _ _ _ =>
    show (r.setPhase _ _).active.length ≤ _
    rw [length_active_setPhase]
    exact hle
  | giveUp _ _ _ => exact hsettle _ _
  | succeed _ _ => exact hsettle _ _
  | retry _ _ _ =>
    rw [length_active_setPhase]
    exact hle
  | fail _ _ _ => exact hsettle _ _
  | cancel => exact hle
  | reduce _ _ _ => exact hle

/-- The active requests are those that have started and not ended. -/
theorem Step.begun_eq {e : Event} (h : Step r e r') (hnodup : (r.active.map ActiveJob.number).Nodup) :
    r'.settled.length + r'.active.length =
      r.settled.length + r.active.length + if e.isBegin then 1 else 0 := by
  have hsettle : ∀ {a : ActiveJob} (o : Outcome), a ∈ r.active →
      (r.settle a o).settled.length + (r.settle a o).active.length =
        r.settled.length + r.active.length := by
    intro a o ha
    have hlength := length_active_settle o hnodup ha
    rw [settle_settled, List.length_append, List.length_singleton]
    omega
  cases h with
  | begin hqueued hroom => simp [Event.isBegin, Nat.add_assoc]
  | call _ _ _ =>
    show r.settled.length + (r.setPhase _ _).active.length = _
    rw [length_active_setPhase]
    rfl
  | giveUp hfind _ _ => exact hsettle _ (mem_active_of_find? hfind)
  | succeed hfind _ => exact hsettle _ (mem_active_of_find? hfind)
  | retry _ _ _ =>
    rw [setPhase_settled, length_active_setPhase]
    rfl
  | fail hfind _ _ => exact hsettle _ (mem_active_of_find? hfind)
  | cancel => rfl
  | reduce _ _ _ => rfl

/-- When the plan has ended, at most one request is left at a time. -/
theorem Stage.length_active_le_one (h : Stage plan r) (hended : plan.length ≤ r.settled.length) :
    r.active.length ≤ 1 := by
  have hpending := length_pending r
  cases h with
  | chunks hentries =>
    have hlength := hentries.length_eq
    rw [List.length_append, List.length_map, length_numbered] at hlength
    omega
  | summarizing _ _ hone _ =>
    rw [hone, List.length_singleton] at hpending
    omega
  | summarized _ _ _ _ hnone _ =>
    rw [hnone, List.length_nil] at hpending
    omega
  | documenting _ _ _ _ _ _ hone _ =>
    rw [hone, List.length_singleton] at hpending
    omega
  | documented _ _ _ _ _ _ _ _ hnone _ =>
    rw [hnone, List.length_nil] at hpending
    omega

/-! ## Calls under way -/

/-- Whether a call is under way. -/
def Phase.isCalling : Phase → Bool
  | .calling _ => true
  | .waiting _ => false

/-- The calls under way are those of the active requests that do not wait. -/
theorem inFlight_eq (hnodup : (r.active.map ActiveJob.number).Nodup) :
    ClockedRun.inFlight r = r.active.countP fun a => Phase.isCalling a.phase := by
  refine List.countP_congr fun a ha => ?_
  rw [ClockedRun.isWaiting, find?_number hnodup ha]
  obtain ⟨number, job, phase⟩ := a
  cases phase <;> simp [Phase.isCalling]

theorem inFlight_le_length_active (r : Run) : ClockedRun.inFlight r ≤ r.active.length :=
  List.countP_le_length

/-- The calls under way when one active request gives way to at most one other. -/
theorem inFlight_of_perm (new : List ActiveJob) {a : ActiveJob} {rest : List ActiveJob}
    (hnodup : (r.active.map ActiveJob.number).Nodup)
    (hnodup' : (r'.active.map ActiveJob.number).Nodup) (hold : r.active.Perm (a :: rest))
    (hnew : r'.active.Perm (new ++ rest)) :
    ClockedRun.inFlight r' + (if Phase.isCalling a.phase then 1 else 0) =
      ClockedRun.inFlight r + new.countP fun b => Phase.isCalling b.phase := by
  rw [inFlight_eq hnodup, inFlight_eq hnodup', hold.countP_eq, hnew.countP_eq, List.countP_append,
    List.countP_cons]
  omega

/-- **A call is under way from its start until it is answered.** -/
theorem Step.inFlight_eq {e : Event} (h : Step r e r') (hstage : Stage plan r)
    (hstage' : Stage plan r') :
    r'.calls.length + ClockedRun.inFlight r =
      r.calls.length + ClockedRun.inFlight r' + if e.isReply then 1 else 0 := by
  have hnodup := hstage.nodup_active
  have hnodup' := hstage'.nodup_active
  have hends : ∀ {number : Nat} {a : ActiveJob} {o : Outcome}, r.find? number = some a →
      r' = r.settle a o →
      ClockedRun.inFlight r' + (if Phase.isCalling a.phase then 1 else 0) =
        ClockedRun.inFlight r := by
    rintro number a o hfind rfl
    exact inFlight_of_perm [] hnodup hnodup'
      (active_perm_cons_filter hnodup (mem_active_of_find? hfind)) (List.Perm.refl _)
  have hgoes : ∀ {number : Nat} {a : ActiveJob} (phase : Phase), r.find? number = some a →
      r'.active = (r.setPhase number phase).active →
      ClockedRun.inFlight r' + (if Phase.isCalling a.phase then 1 else 0) =
        ClockedRun.inFlight r + if Phase.isCalling phase then 1 else 0 := by
    intro number a phase hfind hactive
    have hperm := setPhase_active_perm phase hnodup hfind
    rw [← hactive] at hperm
    have heq := inFlight_of_perm [{ a with phase }] hnodup hnodup'
      (active_perm_cons_filter hnodup (mem_active_of_find? hfind)) hperm
    simpa using heq
  cases h with
  | @begin number job queued hqueued hroom =>
    have heq := inFlight_eq hnodup'
    rw [List.countP_append, ← inFlight_eq hnodup] at heq
    rw [heq]
    rfl
  | @call number attempts a hfind hphase hlive =>
    have heq := hgoes (.calling (attempts + 1)) hfind rfl
    simp only [hphase, Phase.isCalling] at heq
    simp [Event.isReply] at heq ⊢
    omega
  | @giveUp number attempts a hfind hphase hcancelled =>
    have heq := hends hfind rfl
    simp only [hphase, Phase.isCalling] at heq
    simp [Event.isReply] at heq ⊢
    omega
  | @succeed number attempts a text hfind hphase =>
    have heq := hends hfind rfl
    simp only [hphase, Phase.isCalling] at heq
    simp [Event.isReply] at heq ⊢
    omega
  | @retry number attempts a e hfind hphase hgo =>
    have heq := hgoes (.waiting attempts) hfind rfl
    simp only [hphase, Phase.isCalling] at heq
    simp [Event.isReply] at heq ⊢
    omega
  | @fail number attempts a e hfind hphase hstop =>
    have heq := hends hfind rfl
    simp only [hphase, Phase.isCalling] at heq
    simp [Event.isReply] at heq ⊢
    omega
  | cancel => rfl
  | reduce _ _ _ => rfl

end Run

/-! ## Under a clock -/

namespace ClockedRun

open Run

/-- A run under a clock keeps within the limit of its options, and so does the largest number of
    calls that it has seen under way. -/
structure Within (limit : Nat) (s : ClockedRun) : Prop where
  hlimit : s.run.options.maxConcurrency = limit
  hactive : s.run.active.length ≤ limit
  hpeak : s.peak ≤ limit

variable {limit : Nat} {s s' : ClockedRun}

theorem Within.of_step {e : Event} (h : Within limit s) (hstep : Step s.run e s'.run)
    (hpeak : s'.peak ≤ max s.peak (inFlight s'.run)) : Within limit s' := by
  have hlimit : s'.run.options.maxConcurrency = limit := by rw [hstep.frame.1, h.hlimit]
  have hactive : s'.run.active.length ≤ limit := by
    have hle := hstep.length_active_le (h.hlimit ▸ h.hactive)
    rwa [hlimit] at hle
  have hflight := inFlight_le_length_active s'.run
  have hold := h.hpeak
  exact ⟨hlimit, hactive, by omega⟩

theorem lasts_within : Lasts (Within limit) where
  ofSame := by
    intro s s' h hrun hpeak
    exact ⟨hrun ▸ h.hlimit, hrun ▸ h.hactive, hpeak ▸ h.hpeak⟩
  ofStep h hstep hpeak := h.of_step hstep hpeak

theorem Within.checkCancel (h : Within limit s) : Within limit s.checkCancel :=
  lasts_within.checkCancel h

theorem gives_within_steps {m : Type → Type} [Monad m] [LawfulMonad m] (service : Service m) (n : Nat)
    (h : Within limit s) : Gives (Within limit) (steps service n s) :=
  lasts_within.gives_steps service n h

end ClockedRun

namespace Run

/-! ## Every run -/

section Start

variable {options : SynthesisOptions} {cs : List Chunk} {stores : ContextStores} {r : Run}
  {es : List Event}

theorem length_active_of_start (h : (start options cs stores).after? es = some r) :
    r.active.length ≤ options.maxConcurrency := by
  rw [← (frame_of_start h).1]
  refine after?_induction (P := fun _ s => s.active.length ≤ s.options.maxConcurrency)
    (Nat.zero_le _) ?_ h
  intro _ _ s s' _ hle hstep
  exact hstep.length_active_le hle

theorem countP_isBegin_of_start (h : (start options cs stores).after? es = some r) :
    es.countP Event.isBegin = r.settled.length + r.active.length := by
  refine after?_induction
    (P := fun es s => es.countP Event.isBegin = s.settled.length + s.active.length) rfl ?_ h
  intro es e s s' hs ih hstep
  rw [hstep.begun_eq (stage_of_start hs).nodup_active, List.countP_append, ih, List.countP_singleton]

theorem length_calls_of_start (h : (start options cs stores).after? es = some r) :
    r.calls.length = es.countP Event.isReply + ClockedRun.inFlight r := by
  refine after?_induction
    (P := fun es s => s.calls.length = es.countP Event.isReply + ClockedRun.inFlight s) rfl ?_ h
  intro es e s s' hs ih hstep
  have hs' := after?_concat_eq_some.2 ⟨s, hs, hstep⟩
  have heq := hstep.inFlight_eq (stage_of_start hs) (stage_of_start hs')
  rw [List.countP_append, List.countP_singleton]
  omega

/-- **Concurrency is bounded** at every moment of every run, in whatever order things happen. The
    requests that have started and not ended are the active ones, waiting or called, and there are
    never more than the options allow; the calls that have started and not been answered are among
    them. When all requests about chunks have ended, there is at most one at a time. So no clock
    ever sees more calls under way than the options allow. -/
theorem concurrency_bounded (options : SynthesisOptions) (cs : List Chunk) (stores : ContextStores) :
    (∀ es r, (start options cs stores).after? es = some r →
      es.countP Event.isBegin = r.settled.length + r.active.length ∧
      r.active.length ≤ options.maxConcurrency ∧
      r.calls.length = es.countP Event.isReply + ClockedRun.inFlight r ∧
      ClockedRun.inFlight r ≤ r.active.length ∧
      (r.planned ≤ r.settled.length → r.active.length ≤ 1)) ∧
    ∀ (m : Type → Type) [Monad m] [LawfulMonad m] (service : Service m)
      (cancellation : Cancellation),
      Gives (fun s => s.peak ≤ options.maxConcurrency)
        ((start options cs stores).drive service cancellation) := by
  constructor
  · intro es r h
    refine ⟨countP_isBegin_of_start h, length_active_of_start h, length_calls_of_start h,
      inFlight_le_length_active r, fun hended => ?_⟩
    rw [(frame_of_start h).2] at hended
    exact (stage_of_start h).length_active_le_one hended
  · intro m _ _ service cancellation
    have hfirst : ClockedRun.Within options.maxConcurrency
        { run := start options cs stores, cancellation } :=
      ⟨rfl, Nat.zero_le _, Nat.zero_le _⟩
    exact (ClockedRun.gives_within_steps service _ hfirst.checkCancel).mono fun s hs => hs.hpeak

/-- The twins reach their limit of two calls at once, and reduce with one request at a time. -/
theorem twin_concurrency_bounded :
    (∃ r, (start pairOptions twinChunks {}).after? (twinEvents.take 4) = some r ∧
      ClockedRun.inFlight r = 2 ∧ r.active.length ≤ 2) ∧
      ∃ r, (start pairOptions twinChunks {}).after? (twinEvents ++ [.reduce, .begin]) = some r ∧
        r.planned ≤ r.settled.length ∧ r.active.length ≤ 1 := by
  have hbounded := (concurrency_bounded pairOptions twinChunks {}).1
  constructor
  · obtain ⟨r, hr, hflight⟩ : ∃ r, (start pairOptions twinChunks {}).after? (twinEvents.take 4) =
        some r ∧ ClockedRun.inFlight r = 2 := ⟨_, rfl, rfl⟩
    exact ⟨r, hr, hflight, (hbounded _ r hr).2.1⟩
  · obtain ⟨r, hr, hended⟩ : ∃ r, (start pairOptions twinChunks {}).after?
        (twinEvents ++ [.reduce, .begin]) = some r ∧ r.planned ≤ r.settled.length := by
      exact ⟨_, after?_append_reduce rfl rfl rfl rfl rfl (List.mem_of_getElem? (i := 0) rfl) rfl rfl
        rfl, by decide⟩
    exact ⟨r, hr, hended, (hbounded _ r hr).2.2.2.2 hended⟩

end Start

end Run

end SourceDocs
