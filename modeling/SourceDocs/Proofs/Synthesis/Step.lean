import Mathlib.Data.List.Induction
import SourceDocs.Synthesis.Run

set_option autoImplicit false

/-! # Steps of a run: `Run.next?` as a relation

`Step r e r'` has one rule for each way an event can go, with everything the run checks on that way;
`next?_eq_some_iff` says that `Run.next?` does exactly this. What a run keeps is proved once for
each rule and then holds after every list of events (`after?_induction`).

A request of a run is `pending` until it ends. `Effect` is what any step does to the pending and the
ended requests: nothing, one request ends, or a request about the corpus comes in. -/

namespace SourceDocs

/-- An active request under its number. -/
def ActiveJob.entry (a : ActiveJob) : Nat × Job := (a.number, a.job)

/-- An ended request under its number. -/
def SettledJob.entry (s : SettledJob) : Nat × Job := (s.number, s.job)

namespace Run

/-- The requests that have not ended: those that are active, then the queue. -/
def pending (r : Run) : List (Nat × Job) := r.active.map ActiveJob.entry ++ r.queued

/-! ## What single changes leave as it is -/

section Frame

variable (r : Run) (number : Nat) (phase : Phase) (a : ActiveJob) (o : Outcome)

@[simp] theorem setPhase_options : (r.setPhase number phase).options = r.options := rfl

@[simp] theorem setPhase_planned : (r.setPhase number phase).planned = r.planned := rfl

@[simp] theorem setPhase_queued : (r.setPhase number phase).queued = r.queued := rfl

@[simp] theorem setPhase_settled : (r.setPhase number phase).settled = r.settled := rfl

@[simp] theorem setPhase_calls : (r.setPhase number phase).calls = r.calls := rfl

@[simp] theorem setPhase_cancelled : (r.setPhase number phase).cancelled = r.cancelled := rfl

theorem setPhase_active : (r.setPhase number phase).active =
    r.active.map fun b => if b.number = number then { b with phase } else b := rfl

@[simp] theorem settle_options : (r.settle a o).options = r.options := rfl

@[simp] theorem settle_planned : (r.settle a o).planned = r.planned := rfl

@[simp] theorem settle_queued : (r.settle a o).queued = r.queued := rfl

@[simp] theorem settle_calls : (r.settle a o).calls = r.calls := rfl

@[simp] theorem settle_cancelled : (r.settle a o).cancelled = r.cancelled := rfl

@[simp] theorem settle_settled :
    (r.settle a o).settled = r.settled ++ [{ number := a.number, job := a.job, outcome := o }] := rfl

theorem settle_active :
    (r.settle a o).active = r.active.filter fun b => b.number ≠ a.number := rfl

/-- A change of phase changes no request. -/
theorem setPhase_active_map_entry :
    (r.setPhase number phase).active.map ActiveJob.entry = r.active.map ActiveJob.entry := by
  rw [setPhase_active, List.map_map]
  refine List.map_congr_left fun b _ => ?_
  by_cases hb : b.number = number <;> simp [ActiveJob.entry, hb]

theorem setPhase_active_map_number :
    (r.setPhase number phase).active.map ActiveJob.number = r.active.map ActiveJob.number := by
  have hentries := congrArg (List.map Prod.fst) (setPhase_active_map_entry r number phase)
  rw [List.map_map, List.map_map] at hentries
  exact hentries

end Frame

/-! ## Finding active requests -/

theorem mem_active_of_find? {r : Run} {number : Nat} {a : ActiveJob}
    (h : r.find? number = some a) : a ∈ r.active :=
  List.mem_of_find?_eq_some h

theorem number_of_find? {r : Run} {number : Nat} {a : ActiveJob}
    (h : r.find? number = some a) : a.number = number := by
  simpa using List.find?_some h

/-- In a list without two items under one number, each is found by its number. -/
theorem find?_eq_of_nodup {α : Type} {key : α → Nat} {as : List α} {a : α}
    (hnodup : (as.map key).Nodup) (ha : a ∈ as) : as.find? (fun b => key b = key a) = some a := by
  induction as with
  | nil => simp at ha
  | cons b rest ih =>
    rw [List.map_cons, List.nodup_cons] at hnodup
    rcases List.mem_cons.1 ha with rfl | ha
    · simp
    · have hne : key b ≠ key a := by
        intro h
        exact hnodup.1 (h ▸ List.mem_map_of_mem ha)
      rw [List.find?_cons_of_neg (by simpa using hne)]
      exact ih hnodup.2 ha

/-- Active requests are found by their numbers, if no two have the same one. -/
theorem find?_number {r : Run} {a : ActiveJob} (hnodup : (r.active.map ActiveJob.number).Nodup)
    (ha : a ∈ r.active) : r.find? a.number = some a :=
  find?_eq_of_nodup hnodup ha

/-! ## The rules of a run -/

/-- What an event does to a run: one rule for each way it can go. -/
inductive Step (r : Run) : Event → Run → Prop where
  | begin {number : Nat} {job : Job} {queued : List (Nat × Job)}
      (hqueued : r.queued = (number, job) :: queued)
      (hroom : r.active.length < r.options.maxConcurrency) :
      Step r .begin
        { r with queued, active := r.active ++ [{ number, job, phase := .waiting 0 }] }
  | call {number attempts : Nat} {a : ActiveJob} (hfind : r.find? number = some a)
      (hphase : a.phase = .waiting attempts) (hlive : r.cancelled = false) :
      Step r (.resume number)
        { r.setPhase number (.calling (attempts + 1)) with
          calls := r.calls ++ [(number, a.job)] }
  | giveUp {number attempts : Nat} {a : ActiveJob} (hfind : r.find? number = some a)
      (hphase : a.phase = .waiting attempts) (hcancelled : r.cancelled = true) :
      Step r (.resume number) (r.settle a (.error ⟨.cancelled, attempts⟩))
  | succeed {number attempts : Nat} {a : ActiveJob} {text : String}
      (hfind : r.find? number = some a) (hphase : a.phase = .calling attempts) :
      Step r (.reply number (.ok text)) (r.settle a (.ok text))
  | retry {number attempts : Nat} {a : ActiveJob} {e : GenerationError}
      (hfind : r.find? number = some a) (hphase : a.phase = .calling attempts)
      (hgo : r.options.policy.goesOn attempts e = true) :
      Step r (.reply number (.error e)) (r.setPhase number (.waiting attempts))
  | fail {number attempts : Nat} {a : ActiveJob} {e : GenerationError}
      (hfind : r.find? number = some a) (hphase : a.phase = .calling attempts)
      (hstop : r.options.policy.goesOn attempts e = false) :
      Step r (.reply number (.error e)) (r.settle a (.error ⟨e, attempts⟩))
  | cancel : Step r .cancel { r with cancelled := true }
  | reduce {job : Job} (hqueued : r.queued = []) (hactive : r.active = [])
      (hnext : r.nextReduction? = some job) :
      Step r .reduce { r with queued := [(r.settled.length, job)] }

/-- `Run.next?` follows the rules. -/
theorem Step.of_next? {r r' : Run} {e : Event} (h : r.next? e = some r') : Step r e r' := by
  cases e with
  | begin =>
    simp only [next?] at h
    split at h
    · cases h
    · split at h
      · cases h
        exact .begin ‹_› ‹_›
      · cases h
  | resume number =>
    simp only [next?] at h
    split at h
    · split at h
      · split at h
        · cases h
          exact .giveUp ‹_› ‹_› ‹_›
        · rename_i hlive
          cases h
          exact .call ‹_› ‹_› (by simpa using hlive)
      · cases h
    · cases h
  | reply number reply =>
    simp only [next?] at h
    split at h
    · split at h
      · split at h
        · cases h
          exact .succeed ‹_› ‹_›
        · split at h
          · cases h
            exact .retry ‹_› ‹_› ‹_›
          · rename_i hstop
            cases h
            exact .fail ‹_› ‹_› (by simpa using hstop)
      · cases h
    · cases h
  | cancel =>
    cases h
    exact .cancel
  | reduce =>
    simp only [next?] at h
    split at h
    · rename_i hidle
      obtain ⟨job, hnext, rfl⟩ := Option.map_eq_some_iff.1 h
      rw [Bool.and_eq_true, List.isEmpty_iff, List.isEmpty_iff] at hidle
      exact .reduce hidle.1 hidle.2 hnext
    · cases h

/-- Each rule is a way that `Run.next?` goes. -/
theorem Step.next?_eq {r r' : Run} {e : Event} (h : Step r e r') : r.next? e = some r' := by
  cases h with
  | begin hqueued hroom => simp [next?, hqueued, hroom]
  | call hfind hphase hlive => simp [next?, hfind, hphase, hlive]
  | giveUp hfind hphase hcancelled => simp [next?, hfind, hphase, hcancelled]
  | succeed hfind hphase => simp [next?, hfind, hphase]
  | retry hfind hphase hgo => simp [next?, hfind, hphase, hgo]
  | fail hfind hphase hstop => simp [next?, hfind, hphase, hstop]
  | cancel => rfl
  | reduce hqueued hactive hnext => simp [next?, hqueued, hactive, hnext]

theorem next?_eq_some_iff {r r' : Run} {e : Event} : r.next? e = some r' ↔ Step r e r' :=
  ⟨Step.of_next?, Step.next?_eq⟩

/-- No step changes what a run is to do. -/
theorem Step.frame {r r' : Run} {e : Event} (h : Step r e r') :
    r'.options = r.options ∧ r'.planned = r.planned := by
  cases h <;> exact ⟨rfl, rfl⟩

/-! ## Lists of events -/

theorem after?_append (r : Run) (es fs : List Event) :
    r.after? (es ++ fs) = (r.after? es).bind fun s => s.after? fs := by
  induction es generalizing r with
  | nil => rfl
  | cons e rest ih =>
    simp only [List.cons_append, after?]
    cases r.next? e with
    | none => rfl
    | some s => exact ih s

theorem after?_append_eq_some {r t : Run} {es fs : List Event} :
    r.after? (es ++ fs) = some t ↔ ∃ s, r.after? es = some s ∧ s.after? fs = some t := by
  rw [after?_append, Option.bind_eq_some_iff]

theorem after?_cons_eq_some {r t : Run} {e : Event} {es : List Event} :
    r.after? (e :: es) = some t ↔ ∃ s, Step r e s ∧ s.after? es = some t := by
  simp only [after?, Option.bind_eq_some_iff, next?_eq_some_iff]

theorem after?_concat_eq_some {r t : Run} {e : Event} {es : List Event} :
    r.after? (es ++ [e]) = some t ↔ ∃ s, r.after? es = some s ∧ Step s e t := by
  rw [after?_append_eq_some]
  refine exists_congr fun s => and_congr_right fun _ => ?_
  rw [after?_cons_eq_some]
  constructor
  · rintro ⟨u, hstep, hu⟩
    cases hu
    exact hstep
  · exact fun hstep => ⟨t, hstep, rfl⟩

/-- What holds at first and is kept by each step holds after every list of events. -/
theorem after?_induction {r : Run} {P : List Event → Run → Prop} (hfirst : P [] r)
    (hstep : ∀ es e s s', r.after? es = some s → P es s → Step s e s' → P (es ++ [e]) s')
    {es : List Event} {t : Run} (h : r.after? es = some t) : P es t := by
  induction es using List.reverseRecOn generalizing t with
  | nil =>
    cases h
    exact hfirst
  | append_singleton es e ih =>
    obtain ⟨s, hs, hst⟩ := after?_concat_eq_some.1 h
    exact hstep es e s t hs (ih hs) hst

theorem after?_frame {r t : Run} {es : List Event} (h : r.after? es = some t) :
    t.options = r.options ∧ t.planned = r.planned := by
  refine after?_induction (P := fun _ s => s.options = r.options ∧ s.planned = r.planned)
    ⟨rfl, rfl⟩ ?_ h
  intro _ _ s s' _ hs hstep
  exact ⟨hstep.frame.1.trans hs.1, hstep.frame.2.trans hs.2⟩

/-! ## Pending and ended requests -/

/-- Of the requests with distinct numbers, one is set apart by its number. -/
theorem active_perm_cons_filter {as : List ActiveJob} {a : ActiveJob}
    (hnodup : (as.map ActiveJob.number).Nodup) (ha : a ∈ as) :
    as.Perm (a :: as.filter fun b => b.number ≠ a.number) := by
  induction as with
  | nil => simp at ha
  | cons b rest ih =>
    rw [List.map_cons, List.nodup_cons] at hnodup
    rcases List.mem_cons.1 ha with rfl | ha
    · have hrest : rest.filter (fun c => c.number ≠ a.number) = rest := by
        refine List.filter_eq_self.2 fun c hc => ?_
        have hne : c.number ≠ a.number := fun h => hnodup.1 (h ▸ List.mem_map_of_mem hc)
        simpa using hne
      rw [List.filter_cons_of_neg (by simp), hrest]
    · have hne : b.number ≠ a.number := fun h => hnodup.1 (h ▸ List.mem_map_of_mem ha)
      rw [List.filter_cons_of_pos (by simpa using hne)]
      exact ((ih hnodup.2 ha).cons b).trans (List.Perm.swap a b _)

/-- A change of phase changes one active request. -/
theorem setPhase_active_perm {r : Run} {number : Nat} {a : ActiveJob} (phase : Phase)
    (hnodup : (r.active.map ActiveJob.number).Nodup) (hfind : r.find? number = some a) :
    (r.setPhase number phase).active.Perm
      ({ a with phase } :: r.active.filter fun b => b.number ≠ a.number) := by
  have hnumber := number_of_find? hfind
  have hperm := active_perm_cons_filter hnodup (mem_active_of_find? hfind)
  refine (hperm.map _).trans ?_
  rw [List.map_cons, if_pos hnumber]
  refine List.Perm.of_eq (congrArg _ ?_)
  refine (List.map_congr_left fun b hb => ?_).trans (List.map_id _)
  have hne : b.number ≠ number := by simpa [hnumber] using (List.mem_filter.1 hb).2
  rw [if_neg hne]
  rfl

/-- What a step does to the requests of a run. -/
inductive Effect (r r' : Run) : Prop where
  | keeps (hpending : r'.pending = r.pending) (hsettled : r'.settled = r.settled)
  | settles (s : SettledJob) (hpending : r.pending.Perm (s.entry :: r'.pending))
      (hsettled : r'.settled = r.settled ++ [s])
  | reduces (job : Job) (hidle : r.pending = []) (hnext : r.nextReduction? = some job)
      (hpending : r'.pending = [(r.settled.length, job)]) (hsettled : r'.settled = r.settled)

theorem effect_settle {r : Run} {a : ActiveJob} (o : Outcome)
    (hnodup : (r.active.map ActiveJob.number).Nodup) (ha : a ∈ r.active) :
    Effect r (r.settle a o) := by
  refine .settles { number := a.number, job := a.job, outcome := o } ?_ rfl
  have hperm := (active_perm_cons_filter hnodup ha).map ActiveJob.entry
  exact hperm.append_right r.queued

theorem Step.effect {r r' : Run} {e : Event} (h : Step r e r')
    (hnodup : (r.active.map ActiveJob.number).Nodup) : Effect r r' := by
  cases h with
  | begin hqueued hroom =>
    refine .keeps ?_ rfl
    simp [pending, hqueued, ActiveJob.entry]
  | @call number attempts a hfind hphase hlive =>
    refine .keeps ?_ rfl
    simp only [pending, setPhase_queued]
    exact congrArg (· ++ r.queued) (setPhase_active_map_entry r number _)
  | giveUp hfind _ _ => exact effect_settle _ hnodup (mem_active_of_find? hfind)
  | succeed hfind _ => exact effect_settle _ hnodup (mem_active_of_find? hfind)
  | retry _ _ _ =>
    refine .keeps ?_ rfl
    simp only [pending, setPhase_queued, setPhase_active_map_entry]
  | fail hfind _ _ => exact effect_settle _ hnodup (mem_active_of_find? hfind)
  | cancel => exact .keeps rfl rfl
  | reduce hqueued hactive hnext =>
    refine .reduces _ ?_ hnext ?_ rfl
    · simp [pending, hqueued, hactive]
    · simp [pending, hactive]

end Run

end SourceDocs
