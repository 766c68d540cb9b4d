import Mathlib
import SourceDocs.Proofs.Synthesis.History

set_option autoImplicit false

/-! # Termination: no run is endless and none gets stuck

`Run.potential` weighs what is still to happen: every active request by the calls that are left to
it, every queued one by all of its calls, and the requests about the corpus that may still come in.
Every event but a cancellation uses some of it up (`Step.potential_add_weight_le`), so from the
start of a run only boundedly many such events can come, in whatever order; and as long as a run is
not complete, one of them is possible (`exists_step`). -/

namespace SourceDocs

/-- The largest number of calls of one request. -/
def RetryPolicy.callLimit (p : RetryPolicy) : Nat := max 1 p.maxAttempts

namespace Run

/-- What an event uses up; nothing but a cancellation is free. -/
def Event.weight : Event → Nat
  | .begin => 1
  | .resume _ => 2
  | .reply _ _ => 2
  | .cancel => 0
  | .reduce => 1

/-- What a request in a phase has left, if it may make `limit` calls. -/
def phaseWeight (limit : Nat) : Phase → Nat
  -- a call weighs two when it starts and two when it is answered
  | .waiting attempts => 4 * (limit - attempts)
  | .calling attempts => 4 * (limit - attempts) + 2

/-- What a request in the queue has left. -/
def queueWeight (limit : Nat) : Nat := 4 * limit + 1

/-- What a request about the corpus has left that has not come in. -/
def corpusWeight (limit : Nat) : Nat := 4 * limit + 2

/-- What the active requests of a run have left. -/
def activeWeight (r : Run) : Nat :=
  (r.active.map fun a => phaseWeight r.options.policy.callLimit a.phase).sum

/-- The number of requests about the corpus that may still come in. -/
def reductionsLeft (r : Run) : Nat := r.planned + 2 - (r.pending.length + r.settled.length)

/-- What is left to happen in a run. -/
def potential (r : Run) : Nat :=
  r.activeWeight + r.queued.length * queueWeight r.options.policy.callLimit +
    r.reductionsLeft * corpusWeight r.options.policy.callLimit

/-- Whether an event cancels the run. -/
def Event.isCancel : Event → Bool
  | .cancel => true
  | _ => false

/-- An event by which a run goes on, if `answer` is what each request is answered with next. -/
inductive Event.Progress (answer : Nat → Reply) : Event → Prop where
  | begin : Progress answer .begin
  | resume (number : Nat) : Progress answer (.resume number)
  | reply (number : Nat) : Progress answer (.reply number (answer number))
  | reduce : Progress answer .reduce

/-- What happens to a run beside its cancellation comes to an end: `bound` such events are the most
    there can be, and whatever the answers are, one is possible unless the run is complete. -/
structure Terminates (r : Run) (bound : Nat) : Prop where
  bounded : ∀ es r', r.after? es = some r' → es.countP (fun e => !e.isCancel) ≤ bound
  live : ∀ es r', r.after? es = some r' → r'.isComplete = false → ∀ answer,
    ∃ e, Event.Progress answer e ∧ (r'.next? e).isSome = true

variable {plan : List Job} {r r' : Run} {es : List Event} {p : RetryPolicy}

/-- Only a cancellation cancels a run. -/
theorem Step.cancelled_eq {e : Event} (h : Step r e r') (he : e.isCancel = false) :
    r'.cancelled = r.cancelled := by
  cases h with
  | cancel => simp [Event.isCancel] at he
  | begin _ _ => rfl
  | call _ _ _ => rfl
  | giveUp _ _ _ => rfl
  | succeed _ _ => rfl
  | retry _ _ _ => rfl
  | fail _ _ _ => rfl
  | reduce _ _ _ => rfl

/-! ## Calls are limited -/

/-- A request that goes on has a call left. -/
theorem lt_callLimit_of_tried {replies : List Reply} (h : Tried p replies) :
    replies.length < p.callLimit := by
  unfold RetryPolicy.callLimit
  cases hn : replies.length with
  | zero => omega
  | succ n =>
    obtain ⟨e, -, hgo⟩ := h n replies[n] (List.getElem?_eq_getElem (by omega))
    simp only [RetryPolicy.goesOn, Bool.and_eq_true, decide_eq_true_eq] at hgo
    omega

theorem lt_callLimit_of_waiting {number attempts : Nat} {a : ActiveJob} (h : History r es)
    (hfind : r.find? number = some a) (hphase : a.phase = .waiting attempts) :
    attempts < r.options.policy.callLimit := by
  obtain ⟨-, rfl, htried⟩ := h.of_waiting hfind hphase
  exact lt_callLimit_of_tried htried

/-! ## Every event uses up some of the potential -/

theorem length_pending (r : Run) : r.pending.length = r.active.length + r.queued.length := by
  simp [pending]

theorem Stage.entries_le (h : Stage plan r) :
    r.pending.length + r.settled.length ≤ plan.length + 2 := by
  obtain ⟨ended, highLevel, corpus, hbegins, hperm⟩ := h.entries
  have hcorpus : corpus.length ≤ 2 := hbegins.length_le
  have hlength := hperm.length_eq
  simp only [List.length_append, List.length_map, length_numbered] at hlength
  omega

/-- The requests about the corpus that may still come in are fewer only when one comes in. -/
theorem reductionsLeft_of_effect (hstage : Stage plan r') (hplanned : r.planned = plan.length)
    (hsame : r'.planned = r.planned) (h : Effect r r') :
    r'.reductionsLeft = r.reductionsLeft ∨
      (r.pending = [] ∧ r'.reductionsLeft + 1 = r.reductionsLeft) := by
  obtain ⟨ended, highLevel, corpus, hbegins, hperm⟩ := hstage.entries
  have hcorpus : corpus.length ≤ 2 := hbegins.length_le
  have hlength := hperm.length_eq
  simp only [List.length_append, List.length_map, length_numbered] at hlength
  unfold reductionsLeft
  cases h with
  | keeps hpending hsettled => exact Or.inl (by rw [hpending, hsettled, hsame])
  | settles s hpending hsettled =>
    have hone := hpending.length_eq
    rw [List.length_cons] at hone
    rw [hsettled, List.length_append, List.length_singleton, hone, hsame]
    exact Or.inl (by omega)
  | reduces job hidle hnext hpending hsettled =>
    rw [hpending, hsettled, List.length_singleton] at hlength ⊢
    rw [hidle, List.length_nil, hsame]
    exact Or.inr ⟨rfl, by omega⟩

/-- When a request ends, what it had left is used up. -/
theorem activeWeight_settle {a : ActiveJob} (o : Outcome) (hstage : Stage plan r)
    (ha : a ∈ r.active) :
    (r.settle a o).activeWeight + phaseWeight r.options.policy.callLimit a.phase =
      r.activeWeight := by
  have hperm := active_perm_cons_filter hstage.nodup_active ha
  have hsum := (hperm.map fun b => phaseWeight r.options.policy.callLimit b.phase).sum_eq
  rw [List.map_cons, List.sum_cons] at hsum
  unfold activeWeight
  rw [hsum, settle_active, settle_options, Nat.add_comm]

/-- When a request changes its phase, all others have as much left as before. -/
theorem activeWeight_setPhase {number : Nat} {a : ActiveJob} (phase : Phase)
    (hstage : Stage plan r) (hfind : r.find? number = some a) :
    (r.setPhase number phase).activeWeight + phaseWeight r.options.policy.callLimit a.phase =
      r.activeWeight + phaseWeight r.options.policy.callLimit phase := by
  have hold := active_perm_cons_filter hstage.nodup_active (mem_active_of_find? hfind)
  have hnew := setPhase_active_perm phase hstage.nodup_active hfind
  have holdsum := (hold.map fun b => phaseWeight r.options.policy.callLimit b.phase).sum_eq
  have hnewsum := (hnew.map fun b => phaseWeight r.options.policy.callLimit b.phase).sum_eq
  rw [List.map_cons, List.sum_cons] at holdsum hnewsum
  dsimp only at hnewsum
  unfold activeWeight
  rw [holdsum, setPhase_options, hnewsum]
  omega

/-- An event that changes neither the queue nor the requests about the corpus uses up what it takes
    from the active ones. -/
theorem potential_add_le {weight : Nat} (hqueued : r'.queued = r.queued)
    (hoptions : r'.options = r.options) (hleft : r'.reductionsLeft = r.reductionsLeft)
    (hactive : r'.activeWeight + weight ≤ r.activeWeight) :
    r'.potential + weight ≤ r.potential := by
  unfold potential
  rw [hqueued, hoptions, hleft]
  omega

/-- **Every event uses up some of the potential**, whichever way it goes. -/
theorem Step.potential_add_weight_le {e : Event} (h : Step r e r') (hstage : Stage plan r)
    (hplanned : r.planned = plan.length) (hhistory : History r es) :
    r'.potential + e.weight ≤ r.potential := by
  have heffect := h.effect hstage.nodup_active
  have hstage' := hstage.of_effect hplanned h.frame.1 heffect
  have hleft := reductionsLeft_of_effect hstage' hplanned h.frame.2 heffect
  -- a request is pending as long as one is active, so that nothing about the corpus comes in
  have hkept : ∀ {a : ActiveJob}, a ∈ r.active → r'.reductionsLeft = r.reductionsLeft := by
    intro a ha
    refine hleft.resolve_right fun hidle => ?_
    rw [pending, List.append_eq_nil_iff, List.map_eq_nil_iff] at hidle
    rw [hidle.1.1] at ha
    exact absurd ha List.not_mem_nil
  cases h with
  | @begin number job queued hqueued hroom =>
    have hsame := hleft.resolve_right fun hidle => by simp [pending, hqueued] at hidle
    unfold potential
    rw [hsame]
    simp only [activeWeight, hqueued, List.map_append, List.map_singleton, List.sum_append,
      List.sum_singleton, List.length_cons, Nat.succ_mul, phaseWeight, queueWeight, Event.weight]
    omega
  | @call number attempts a hfind hphase hlive =>
    have ha := mem_active_of_find? hfind
    have hweight := activeWeight_setPhase (.calling (attempts + 1)) hstage hfind
    have hlimit := lt_callLimit_of_waiting hhistory hfind hphase
    simp only [hphase, phaseWeight] at hweight
    refine potential_add_le rfl rfl (hkept ha) ?_
    show (r.setPhase number (.calling (attempts + 1))).activeWeight + 2 ≤ r.activeWeight
    omega
  | @giveUp number attempts a hfind hphase hcancelled =>
    have ha := mem_active_of_find? hfind
    have hweight := activeWeight_settle (.error ⟨.cancelled, attempts⟩) hstage ha
    have hlimit := lt_callLimit_of_waiting hhistory hfind hphase
    simp only [hphase, phaseWeight] at hweight
    refine potential_add_le rfl rfl (hkept ha) ?_
    simp only [Event.weight]
    omega
  | @succeed number attempts a text hfind hphase =>
    have ha := mem_active_of_find? hfind
    have hweight := activeWeight_settle (.ok text) hstage ha
    simp only [hphase, phaseWeight] at hweight
    refine potential_add_le rfl rfl (hkept ha) ?_
    simp only [Event.weight]
    omega
  | @retry number attempts a e hfind hphase hgo =>
    have hweight := activeWeight_setPhase (.waiting attempts) hstage hfind
    simp only [hphase, phaseWeight] at hweight
    refine potential_add_le rfl rfl (hkept (mem_active_of_find? hfind)) ?_
    simp only [Event.weight]
    omega
  | @fail number attempts a e hfind hphase hstop =>
    have ha := mem_active_of_find? hfind
    have hweight := activeWeight_settle (.error ⟨e, attempts⟩) hstage ha
    simp only [hphase, phaseWeight] at hweight
    refine potential_add_le rfl rfl (hkept ha) ?_
    simp only [Event.weight]
    omega
  | cancel => exact Nat.le_refl _
  | @reduce job hqueued hactive hnext =>
    have hone : reductionsLeft { r with queued := [(r.settled.length, job)] } + 1 =
        r.reductionsLeft := by
      have hle := hstage'.entries_le
      simp only [reductionsLeft, length_pending, hactive, hqueued, hplanned, List.length_nil,
        List.length_singleton] at hle ⊢
      omega
    unfold potential
    rw [← hone]
    simp only [activeWeight, hqueued, hactive, List.map_nil, List.sum_nil, List.length_nil,
      List.length_singleton, Nat.succ_mul, queueWeight, corpusWeight, Event.weight]
    omega

/-! ## Every run -/

section Start

variable {options : SynthesisOptions} {cs : List Chunk} {stores : ContextStores}

theorem weight_add_potential_le (h : (start options cs stores).after? es = some r) :
    (es.map Event.weight).sum + r.potential ≤ (start options cs stores).potential := by
  refine after?_induction (P := fun es s => (es.map Event.weight).sum + s.potential ≤ _) ?_ ?_ h
  · simp
  · intro es e s s' hs hle hstep
    have hstage := stage_of_start hs
    have hless := hstep.potential_add_weight_le hstage (frame_of_start hs).2 (history_of_start hs)
    rw [List.map_append, List.map_singleton, List.sum_append, List.sum_singleton]
    omega

/-- Every event but a cancellation weighs something. -/
theorem countP_le_sum_weight (es : List Event) :
    es.countP (fun e => !e.isCancel) ≤ (es.map Event.weight).sum := by
  induction es with
  | nil => simp
  | cons e rest ih =>
    have hone : (if !e.isCancel then 1 else 0) ≤ e.weight := by
      cases e <;> simp [Event.isCancel, Event.weight]
    rw [List.map_cons, List.sum_cons, List.countP_cons]
    omega

/-- As long as a run is not complete, something can happen to it: a request starts, one that waits
    goes on, a call is answered, or a request about the corpus comes in. -/
theorem exists_step (hmax : 1 ≤ r.options.maxConcurrency) (hstage : Stage plan r)
    (hdone : r.isComplete = false) (answer : Nat → Reply) :
    ∃ e r', Event.Progress answer e ∧ Step r e r' := by
  cases hactive : r.active with
  | cons a rest =>
    have ha : a ∈ r.active := hactive ▸ List.mem_cons_self
    have hfind := find?_number hstage.nodup_active ha
    cases hphase : a.phase with
    | waiting attempts =>
      cases hc : r.cancelled with
      | true => exact ⟨_, _, .resume a.number, .giveUp hfind hphase hc⟩
      | false => exact ⟨_, _, .resume a.number, .call hfind hphase hc⟩
    | calling attempts =>
      have hprogress : Event.Progress answer (.reply a.number (answer a.number)) := .reply a.number
      cases hanswer : answer a.number with
      | ok text => exact ⟨_, _, hanswer ▸ hprogress, .succeed hfind hphase⟩
      | error e =>
        cases hgo : r.options.policy.goesOn attempts e with
        | true => exact ⟨_, _, hanswer ▸ hprogress, .retry hfind hphase hgo⟩
        | false => exact ⟨_, _, hanswer ▸ hprogress, .fail hfind hphase hgo⟩
  | nil =>
    cases hqueued : r.queued with
    | cons x queued =>
      obtain ⟨number, job⟩ := x
      refine ⟨_, _, .begin, .begin hqueued ?_⟩
      rw [hactive]
      exact hmax
    | nil =>
      cases hnext : r.nextReduction? with
      | some job => exact ⟨_, _, .reduce, .reduce hqueued hactive hnext⟩
      | none => simp [isComplete, hactive, hqueued, hnext] at hdone

/-- **Every run terminates**, in every order of events. -/
theorem terminates_start (hmax : 1 ≤ options.maxConcurrency) :
    Terminates (start options cs stores) (start options cs stores).potential := by
  refine ⟨?_, ?_⟩
  · intro es r h
    have hweight := weight_add_potential_le h
    have hcount := countP_le_sum_weight es
    omega
  · intro es r h hdone answer
    rw [← (frame_of_start h).1] at hmax
    obtain ⟨e, r', he, hstep⟩ := exists_step hmax (stage_of_start h) hdone answer
    exact ⟨e, he, by rw [hstep.next?_eq]; rfl⟩

end Start

end Run

end SourceDocs
