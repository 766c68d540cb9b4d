import SourceDocs.Synthesis.Clock
import SourceDocs.Proofs.Synthesis.Termination

set_option autoImplicit false

/-! # Runs under a clock: each is a run of events, to its end

`Run.drive` chooses one possible event after the other and may make a bounded number of steps. What
it does to a run is a list of events, and every active request is in one of its lists (`Holding`).
Each step uses up some of the `load`, which is below the bound at first, so that `Run.drive` gives
complete runs only (`gives_drive`), whatever the replies are and whatever monad they come in. -/

namespace SourceDocs

/-- A program gives results with a property only. -/
def Gives {m : Type → Type} [Functor m] {α : Type} (P : α → Prop) (x : m α) : Prop :=
  ∃ y : m { a // P a }, Subtype.val <$> y = x

section Gives

variable {m : Type → Type} [Monad m] [LawfulMonad m] {α β : Type} {P : α → Prop} {Q : β → Prop}

theorem Gives.of_pure {a : α} (h : P a) : Gives P (pure a : m α) :=
  ⟨pure ⟨a, h⟩, by simp⟩

theorem Gives.bind {x : m α} {f : α → m β} (hx : Gives P x) (hf : ∀ a, P a → Gives Q (f a)) :
    Gives Q (x >>= f) := by
  obtain ⟨y, rfl⟩ := hx
  choose z hz using fun a : { a // P a } => hf a a.2
  exact ⟨y >>= z, by simp [hz]⟩

theorem Gives.bind_of_forall {x : m α} {f : α → m β} (hf : ∀ a, Gives Q (f a)) :
    Gives Q (x >>= f) := by
  have hx : Gives (fun _ => True) x := ⟨(fun a => ⟨a, trivial⟩) <$> x, by simp⟩
  exact hx.bind fun a _ => hf a

theorem Gives.mono {P' : α → Prop} {x : m α} (hx : Gives P x) (h : ∀ a, P a → P' a) :
    Gives P' x := by
  rw [← bind_pure x]
  exact hx.bind fun a ha => .of_pure (h a ha)

/-- Programs that go on alike from every result that is given are alike. -/
theorem Gives.bind_eq {x : m α} {f g : α → m β} (hx : Gives P x) (h : ∀ a, P a → f a = g a) :
    x >>= f = x >>= g := by
  obtain ⟨y, rfl⟩ := hx
  rw [bind_map_left, bind_map_left]
  exact bind_congr fun a : { a // P a } => h a a.2

theorem Gives.map_eq {x : m α} {f g : α → β} (hx : Gives P x) (h : ∀ a, P a → f a = g a) :
    f <$> x = g <$> x := by
  rw [map_eq_pure_bind, map_eq_pure_bind]
  exact hx.bind_eq fun a ha => by rw [h a ha]

end Gives

namespace ClockedRun

open Run

/-! ## What a run under a clock keeps -/

/-- A property of runs under a clock that is about the run and its peak, and that every step of the
    run keeps. -/
structure Lasts (Q : ClockedRun → Prop) : Prop where
  ofSame : ∀ {s s' : ClockedRun}, Q s → s'.run = s.run → s'.peak = s.peak → Q s'
  ofStep : ∀ {s s' : ClockedRun} {e : Event}, Q s → Step s.run e s'.run →
    s'.peak ≤ max s.peak (inFlight s'.run) → Q s'

theorem lasts_of_run {P : Run → Prop}
    (hstep : ∀ {r r' : Run} {e : Event}, Step r e r' → P r → P r') :
    Lasts fun s => P s.run where
  ofSame := by
    intro s s' h hrun _
    rwa [hrun]
  ofStep h hrun _ := hstep hrun h

section Lasts

variable {m : Type → Type} [Monad m] [LawfulMonad m] {Q : ClockedRun → Prop} {s : ClockedRun}

theorem Lasts.checkCancel (hlasts : Lasts Q) (h : Q s) : Q s.checkCancel := by
  unfold ClockedRun.checkCancel
  split
  · exact hlasts.ofStep h .cancel (Nat.le_max_left _ _)
  · exact h

theorem Lasts.later (hlasts : Lasts Q) (time number : Nat) (h : Q s) : Q (s.later time number) := by
  unfold ClockedRun.later
  split <;> exact hlasts.ofSame h rfl rfl

theorem Lasts.gives_proceed (hlasts : Lasts Q) (service : Service m) (number : Nat) (h : Q s) :
    Gives Q (proceed service s number) := by
  unfold proceed
  split
  · -- a call starts, or the request gives up
    split
    · exact .of_pure h
    · rename_i run hresume
      have hstep := Step.of_next? hresume
      split
      · exact .of_pure (hlasts.ofStep h hstep (Nat.le_max_left _ _))
      · exact .of_pure (hlasts.later _ _
          (hlasts.checkCancel (hlasts.ofStep h hstep (Nat.le_refl _))))
  · -- a call is answered
    refine .bind_of_forall fun reply => ?_
    split
    · exact .of_pure h
    · rename_i run hreply
      have hanswered : Q { s with run } :=
        hlasts.ofStep h (Step.of_next? hreply) (Nat.le_max_left _ _)
      split
      · exact .of_pure (hlasts.later _ _ hanswered)
      · exact .of_pure hanswered
  · exact .of_pure h

theorem Lasts.gives_step? (hlasts : Lasts Q) (service : Service m) (h : Q s) :
    Gives (fun next => ∀ s', next = some s' → Q s') (step? service s) := by
  have hgoes : ∀ {s' : ClockedRun}, Q s' → ∀ t, some s' = some t → Q t := by
    rintro s' hs' t ht
    exact Option.some.inj ht ▸ hs'
  unfold step?
  split
  · rename_i hbegin
    exact .of_pure (hgoes (hlasts.ofStep h (Step.of_next? hbegin) (Nat.le_max_left _ _)))
  · split
    · rename_i number ready hready
      have hready' : Q { s with ready } := hlasts.ofSame h rfl rfl
      exact (hlasts.gives_proceed service number hready').bind fun s' hs' => .of_pure (hgoes hs')
    · split
      · rename_i instant _
        have hmoved : Q { s with now := instant } := hlasts.ofSame h rfl rfl
        exact .bind_of_forall fun _ =>
          .of_pure (hgoes (hlasts.ofSame (hlasts.checkCancel hmoved) rfl rfl))
      · refine .of_pure fun t ht => ?_
        obtain ⟨run, hreduce, rfl⟩ := Option.map_eq_some_iff.1 ht
        exact hlasts.ofStep h (Step.of_next? hreduce) (Nat.le_max_left _ _)

/-- **What every step of a run keeps holds at the end of the run under a clock.** -/
theorem Lasts.gives_steps (hlasts : Lasts Q) (service : Service m) (n : Nat) (h : Q s) :
    Gives Q (steps service n s) := by
  induction n generalizing s with
  | zero => exact .of_pure h
  | succ n ih =>
    refine (hlasts.gives_step? service h).bind fun next hnext => ?_
    cases next with
    | none => exact .of_pure h
    | some s' => exact .bind_of_forall fun _ => ih (hnext s' rfl)

end Lasts

end ClockedRun

namespace ClockedRun

open Run

/-- What a run under a clock has left: what is left of the run, those to be woken and, once, its
    cancellation. -/
def load (s : ClockedRun) : Nat :=
  s.run.potential + s.sleeping.length + if s.run.cancelled then 0 else 1

/-- A run under a clock has come from `r` by events, and its active requests are those in `busy`,
    those that can go on and those that sleep. -/
structure Holding (r : Run) (cancellation : Cancellation) (busy : List Nat) (s : ClockedRun) :
    Prop where
  hcancellation : s.cancellation = cancellation
  hevents : ∃ es, r.after? es = some s.run ∧
    (cancellation = .never → ∀ e ∈ es, e.isCancel = false)
  hplaces : (busy ++ (s.ready ++ s.sleeping.map Prod.snd)).Perm
    (s.run.active.map ActiveJob.number)

variable {r : Run} {cancellation : Cancellation} {busy : List Nat} {s s' : ClockedRun} {number : Nat}

/-! ## Waiting requests -/

theorem isWaiting_settle (r : Run) (a : ActiveJob) (o : Outcome) :
    isWaiting (r.settle a o) a.number = false := by
  have hnone : (r.settle a o).find? a.number = none := by
    rw [find?, settle_active, List.find?_eq_none]
    intro b hb
    simpa using (List.mem_filter.1 hb).2
  simp [isWaiting, hnone]

theorem isWaiting_setPhase {a : ActiveJob} (attempts : Nat)
    (hnodup : (r.active.map ActiveJob.number).Nodup) (hfind : r.find? number = some a) :
    isWaiting (r.setPhase number (.waiting attempts)) number = true := by
  have hmem : { a with phase := .waiting attempts } ∈
      (r.setPhase number (.waiting attempts)).active :=
    (setPhase_active_perm _ hnodup hfind).mem_iff.2 List.mem_cons_self
  have hnodup' := hnodup
  rw [← setPhase_active_map_number r number (.waiting attempts)] at hnodup'
  have hfind' := find?_number hnodup' hmem
  dsimp only at hfind'
  rw [number_of_find? hfind] at hfind'
  simp [isWaiting, hfind']

theorem settle_active_number_perm {a : ActiveJob} (o : Outcome)
    (hnodup : (r.active.map ActiveJob.number).Nodup) (ha : a ∈ r.active) :
    (r.active.map ActiveJob.number).Perm (a.number :: (r.settle a o).active.map ActiveJob.number) :=
  (active_perm_cons_filter hnodup ha).map ActiveJob.number

/-! ## Moves of the clock -/

theorem insertSleeper_perm (wake number : Nat) (sleeping : List (Nat × Nat)) :
    (insertSleeper wake number sleeping).Perm ((wake, number) :: sleeping) := by
  induction sleeping with
  | nil => exact List.Perm.refl _
  | cons e rest ih =>
    unfold insertSleeper
    split
    · exact (ih.cons e).trans (List.Perm.swap _ _ _)
    · exact List.Perm.refl _

/-- Waking some of those that sleep loses none. -/
theorem wake_perm (p : Nat × Nat → Bool) (ready : List Nat) (sleeping : List (Nat × Nat)) :
    ((ready ++ (sleeping.filter p).map Prod.snd) ++
      (sleeping.filter fun e => !p e).map Prod.snd).Perm (ready ++ sleeping.map Prod.snd) := by
  rw [List.append_assoc, ← List.map_append]
  exact ((List.filter_append_perm p sleeping).map Prod.snd).append_left ready

theorem Holding.checkCancel (h : Holding r cancellation busy s) :
    Holding r cancellation busy s.checkCancel := by
  unfold ClockedRun.checkCancel
  split
  · rename_i hholds
    obtain ⟨es, hes, -⟩ := h.hevents
    refine ⟨h.hcancellation, ⟨es ++ [.cancel], ?_, ?_⟩, ?_⟩
    · exact after?_concat_eq_some.2 ⟨s.run, hes, .cancel⟩
    · rintro rfl
      simp [h.hcancellation, Cancellation.holds] at hholds
    · exact ((wake_perm _ _ _).append_left busy).trans h.hplaces
  · exact h

theorem Holding.later (time : Nat) (h : Holding r cancellation [number] s) :
    Holding r cancellation [] (s.later time number) := by
  unfold ClockedRun.later
  split
  · exact ⟨h.hcancellation, h.hevents, h.hplaces⟩
  · refine ⟨h.hcancellation, h.hevents, List.Perm.trans ?_ h.hplaces⟩
    have hperm := (insertSleeper_perm (s.now + time) number s.sleeping).map Prod.snd
    exact (hperm.append_left s.ready).trans List.perm_middle

theorem Holding.moveTo (instant : Nat) (h : Holding r cancellation [] s) :
    Holding r cancellation [] (s.moveTo instant) := by
  have h' : Holding r cancellation [] { s with now := instant } :=
    ⟨h.hcancellation, h.hevents, h.hplaces⟩
  have hchecked := h'.checkCancel
  exact ⟨hchecked.hcancellation, hchecked.hevents, (wake_perm _ _ _).trans hchecked.hplaces⟩

theorem load_later_le (s : ClockedRun) (time number : Nat) :
    (s.later time number).load ≤ s.load + 1 := by
  unfold ClockedRun.later
  split
  · exact Nat.le_succ _
  · have hlength := (insertSleeper_perm (s.now + time) number s.sleeping).length_eq
    rw [List.length_cons] at hlength
    simp only [load, hlength]
    omega

/-- A cancellation uses up its part of the load. -/
theorem load_cancel_lt (s : ClockedRun) (hlive : s.run.cancelled = false) :
    s.cancel.load < s.load := by
  have hlength := List.length_filter_le (fun e => !isWaiting s.run e.2) s.sleeping
  have hpotential : s.cancel.run.potential = s.run.potential := rfl
  have hcancelled : s.cancel.run.cancelled = true := rfl
  have hsleeping : s.cancel.sleeping = s.sleeping.filter fun e => !isWaiting s.run e.2 := rfl
  rw [load, load, hpotential, hcancelled, hsleeping, hlive]
  simp
  omega

theorem load_checkCancel_le (s : ClockedRun) : s.checkCancel.load ≤ s.load := by
  unfold checkCancel
  split
  · rename_i hholds
    exact Nat.le_of_lt (load_cancel_lt s (by simpa using (Bool.and_eq_true_iff.1 hholds).1))
  · exact Nat.le_refl _

/-- The clock moves to a time for the cancellation or wakes the first of those that sleep. -/
theorem of_nextInstant? {instant : Nat} (h : s.nextInstant? = some instant) :
    (s.run.cancelled = false ∧ s.cancellation.holds instant s.run.calls.length = true) ∨
      ∃ e rest, s.sleeping = e :: rest ∧ e.1 ≤ instant := by
  obtain ⟨e, he, hinstant⟩ := Option.map_eq_some_iff.1 h
  obtain ⟨rest, hsleeping⟩ := List.head?_eq_some_iff.1 he
  split at hinstant
  · rename_i t ht
    split at hinstant
    · exact Or.inr ⟨e, rest, hsleeping, Nat.le_of_eq hinstant⟩
    · -- the cancellation comes first if it is before all that sleep
      rename_i hlive
      by_cases hlater : e.1 ≤ t
      · exact Or.inr ⟨e, rest, hsleeping, by omega⟩
      · refine Or.inl ⟨by simpa using hlive, ?_⟩
        rw [ht]
        simp only [Cancellation.holds, decide_eq_true_eq]
        omega
  · exact Or.inr ⟨e, rest, hsleeping, Nat.le_of_eq hinstant⟩

theorem load_wake_le (s : ClockedRun) (ready : List Nat) (p : Nat × Nat → Bool) :
    load { s with ready, sleeping := s.sleeping.filter p } ≤ s.load :=
  Nat.add_le_add_right (Nat.add_le_add_left (List.length_filter_le p s.sleeping) _) _

theorem load_wake_lt (s : ClockedRun) (ready : List Nat) {p : Nat × Nat → Bool}
    (h : ∃ e ∈ s.sleeping, ¬ p e) :
    load { s with ready, sleeping := s.sleeping.filter p } < s.load :=
  Nat.add_lt_add_right (Nat.add_lt_add_left (List.length_filter_lt_length_iff_exists.2 h) _) _

theorem load_moveTo_lt {instant : Nat} (hinstant : s.nextInstant? = some instant) :
    (s.moveTo instant).load < s.load := by
  by_cases hholds : (!s.run.cancelled && s.cancellation.holds instant s.run.calls.length) = true
  · have hcancelled : ({ s with now := instant } : ClockedRun).checkCancel =
        ({ s with now := instant } : ClockedRun).cancel := if_pos hholds
    rw [Bool.and_eq_true, Bool.not_eq_true'] at hholds
    refine Nat.lt_of_le_of_lt ?_ (load_cancel_lt { s with now := instant } hholds.1)
    rw [← hcancelled]
    exact load_wake_le _ _ _
  · obtain ⟨e, rest, hsleeping, he⟩ := (of_nextInstant? hinstant).resolve_left (by simpa using hholds)
    have hkept : ({ s with now := instant } : ClockedRun).checkCancel =
        { s with now := instant } := if_neg hholds
    unfold moveTo
    rw [hkept]
    exact load_wake_lt { s with now := instant } _ ⟨e, by simp [hsleeping], by simpa using he⟩

/-! ## Steps -/

section Start

variable {options : SynthesisOptions} {cs : List Chunk} {stores : ContextStores} {r' : Run}
  {es : List Event}

theorem potential_add_weight_le {e : Event} (h : (start options cs stores).after? es = some r)
    (hstep : Step r e r') : r'.potential + e.weight ≤ r.potential :=
  hstep.potential_add_weight_le (stage_of_start h) (frame_of_start h).2 (history_of_start h)

theorem Holding.of_step {e : Event} {busy' : List Nat} (h : Holding r cancellation busy s)
    (hcancellation : s'.cancellation = s.cancellation) (hstep : Step s.run e s'.run)
    (he : e.isCancel = false)
    (hplaces : (busy' ++ (s'.ready ++ s'.sleeping.map Prod.snd)).Perm
      (s'.run.active.map ActiveJob.number)) : Holding r cancellation busy' s' := by
  obtain ⟨es, hes, hnever⟩ := h.hevents
  refine ⟨hcancellation.trans h.hcancellation, ⟨es ++ [e], ?_, ?_⟩, hplaces⟩
  · exact after?_concat_eq_some.2 ⟨s.run, hes, hstep⟩
  · intro hc f hf
    rcases List.mem_append.1 hf with hf | hf
    · exact hnever hc f hf
    · rw [List.mem_singleton.1 hf]
      exact he

theorem Holding.load_add_weight_le {e : Event}
    (h : Holding (start options cs stores) cancellation busy s)
    (hstep : Step s.run e s'.run) (he : e.isCancel = false) (hsleeping : s'.sleeping = s.sleeping) :
    s'.load + e.weight ≤ s.load := by
  obtain ⟨es, hes, -⟩ := h.hevents
  have hpotential := potential_add_weight_le hes hstep
  rw [load, load, hsleeping, hstep.cancelled_eq he]
  omega

theorem Holding.exists_find? (h : Holding (start options cs stores) cancellation [number] s) :
    (s.run.active.map ActiveJob.number).Nodup ∧ ∃ a, s.run.find? number = some a := by
  obtain ⟨es, hes, -⟩ := h.hevents
  have hnodup := (stage_of_start hes).nodup_active
  obtain ⟨a, ha, rfl⟩ := List.mem_map.1 (h.hplaces.mem_iff.1 List.mem_cons_self)
  exact ⟨hnodup, a, find?_number hnodup ha⟩

/-- A request that ends is in no list any more. -/
theorem Holding.settle {e : Event} {a : ActiveJob} {o : Outcome}
    (h : Holding (start options cs stores) cancellation [number] s)
    (hfind : s.run.find? number = some a) (hstep : Step s.run e (s.run.settle a o))
    (he : e.isCancel = false) :
    Holding (start options cs stores) cancellation [] { s with run := s.run.settle a o } := by
  have hperm := settle_active_number_perm o h.exists_find?.1 (mem_active_of_find? hfind)
  rw [number_of_find? hfind] at hperm
  exact h.of_step rfl hstep he (List.Perm.cons_inv (h.hplaces.trans hperm))

/-- A request that goes on is in none of the lists until it is put in one. -/
theorem Holding.setPhase {e : Event} {phase : Phase}
    (h : Holding (start options cs stores) cancellation [number] s) (hstep : Step s.run e s'.run)
    (he : e.isCancel = false) (hactive : s'.run.active = (s.run.setPhase number phase).active)
    (hcancellation : s'.cancellation = s.cancellation) (hready : s'.ready = s.ready)
    (hsleeping : s'.sleeping = s.sleeping) :
    Holding (start options cs stores) cancellation [number] s' := by
  refine h.of_step hcancellation hstep he ?_
  rw [hready, hsleeping, hactive, setPhase_active_map_number]
  exact h.hplaces

theorem gives_proceed {m : Type → Type} [Monad m] [LawfulMonad m] (service : Service m)
    (h : Holding (start options cs stores) cancellation [number] s) :
    Gives (fun s' => Holding (start options cs stores) cancellation [] s' ∧ s'.load < s.load)
      (proceed service s number) := by
  obtain ⟨hnodup, a, hfind⟩ := h.exists_find?
  have hends : ∀ {e : Event} {o : Outcome}, Step s.run e (s.run.settle a o) → e.isCancel = false →
      0 < e.weight →
      Holding (start options cs stores) cancellation [] { s with run := s.run.settle a o } ∧
        load { s with run := s.run.settle a o } < s.load := by
    intro e o hstep he hweight
    have hload : load { s with run := s.run.settle a o } + e.weight ≤ s.load :=
      h.load_add_weight_le hstep he rfl
    exact ⟨h.settle hfind hstep he, by omega⟩
  have hnumber := number_of_find? hfind
  obtain ⟨n, job, phase⟩ := a
  obtain rfl : n = number := hnumber
  unfold proceed
  cases phase with
  | waiting attempts =>
    cases hc : s.run.cancelled with
    | true =>
      have hstep : Step s.run (.resume n) _ := .giveUp hfind rfl hc
      simp only [hfind, hstep.next?_eq, settle_calls, if_true]
      exact .of_pure (hends hstep rfl Nat.two_pos)
    | false =>
      have hstep : Step s.run (.resume n) _ := .call hfind rfl hc
      simp only [hfind, hstep.next?_eq, List.length_append, List.length_singleton]
      rw [if_neg (by omega)]
      refine .of_pure ⟨.later _ (.checkCancel (h.setPhase hstep rfl rfl rfl rfl rfl)), ?_⟩
      refine Nat.lt_of_le_of_lt (load_later_le _ _ _) ?_
      refine Nat.lt_of_le_of_lt (Nat.succ_le_succ (load_checkCancel_le _)) ?_
      exact h.load_add_weight_le (e := .resume n) hstep rfl rfl
  | calling attempts =>
    simp only [hfind]
    refine .bind_of_forall fun reply => ?_
    cases reply with
    | ok text =>
      have hstep : Step s.run (.reply n (.ok text)) _ := .succeed hfind rfl
      simp only [hstep.next?_eq]
      rw [if_neg (by rw [isWaiting_settle]; decide)]
      exact .of_pure (hends hstep rfl Nat.two_pos)
    | error e =>
      cases hgo : s.run.options.policy.goesOn attempts e with
      | false =>
        have hstep : Step s.run (.reply n (.error e)) _ := .fail hfind rfl hgo
        simp only [hstep.next?_eq]
        rw [if_neg (by rw [isWaiting_settle]; decide)]
        exact .of_pure (hends hstep rfl Nat.two_pos)
      | true =>
        have hstep : Step s.run (.reply n (.error e)) _ := .retry hfind rfl hgo
        simp only [hstep.next?_eq]
        rw [if_pos (isWaiting_setPhase attempts hnodup hfind)]
        refine .of_pure ⟨.later _ (h.setPhase hstep rfl rfl rfl rfl rfl), ?_⟩
        refine Nat.lt_of_le_of_lt (load_later_le _ _ _) ?_
        exact h.load_add_weight_le (e := .reply n (.error e)) hstep rfl rfl

theorem Holding.begin {number : Nat} {job : Job} {queued : List (Nat × Job)}
    (h : Holding (start options cs stores) cancellation [] s)
    (hqueued : s.run.queued = (number, job) :: queued) (hstep : Step s.run .begin r') :
    Holding (start options cs stores) cancellation []
      { s with run := r', ready := s.ready ++ [number] } := by
  refine h.of_step rfl hstep rfl ?_
  cases hstep with
  | begin hqueued' hroom =>
    rw [hqueued] at hqueued'
    cases hqueued'
    rw [List.map_append, List.map_singleton, List.nil_append, List.append_assoc]
    refine List.perm_middle.trans ?_
    exact (h.hplaces.cons number).trans (List.perm_append_singleton _ _).symm

/-- When nothing can go on and nothing sleeps, nothing is active. -/
theorem Holding.active_eq_nil (h : Holding (start options cs stores) cancellation [] s)
    (hready : s.ready = []) (hinstant : s.nextInstant? = none) : s.run.active = [] := by
  have hsleeping : s.sleeping = [] := List.head?_eq_none_iff.1 (Option.map_eq_none_iff.1 hinstant)
  have hplaces := h.hplaces
  rw [hready, hsleeping] at hplaces
  exact List.map_eq_nil_iff.1 hplaces.symm.eq_nil

/-- What a step leaves: a run with less to do, or the same one if it is complete. -/
theorem gives_step? {m : Type → Type} [Monad m] [LawfulMonad m] (service : Service m)
    (hmax : 1 ≤ options.maxConcurrency)
    (h : Holding (start options cs stores) cancellation [] s) :
    Gives (fun next => (next = none → s.run.isComplete = true) ∧
        ∀ s', next = some s' →
          Holding (start options cs stores) cancellation [] s' ∧ s'.load < s.load)
      (step? service s) := by
  have hgoes : ∀ {s' : ClockedRun}, Holding (start options cs stores) cancellation [] s' →
      s'.load < s.load → (some s' = none → s.run.isComplete = true) ∧ ∀ t, some s' = some t →
        Holding (start options cs stores) cancellation [] t ∧ t.load < s.load := by
    rintro s' hholding hload
    exact ⟨nofun, fun t ht => Option.some.inj ht ▸ ⟨hholding, hload⟩⟩
  unfold step?
  split
  · -- a request starts
    rename_i number job queued run hqueued hbegin
    have hstep := Step.of_next? hbegin
    refine .of_pure (hgoes (h.begin hqueued hstep) ?_)
    exact h.load_add_weight_le (e := .begin) hstep rfl rfl
  · rename_i hnot
    split
    · -- a request goes on
      rename_i number ready hready
      have hplaces := h.hplaces
      rw [hready] at hplaces
      have hbusy : Holding (start options cs stores) cancellation [number] { s with ready } :=
        ⟨h.hcancellation, h.hevents, hplaces⟩
      exact (gives_proceed service hbusy).bind fun s' hs' => .of_pure (hgoes hs'.1 hs'.2)
    · rename_i hready
      split
      · -- the clock moves
        rename_i instant hinstant
        refine .bind_of_forall fun _ => ?_
        exact .of_pure (hgoes (h.moveTo instant) (load_moveTo_lt hinstant))
      · -- nothing is active, so that there is room for what is in the queue
        rename_i hinstant
        have hactive := h.active_eq_nil hready hinstant
        have hqueued : s.run.queued = [] := by
          by_contra hqueued
          obtain ⟨⟨number, job⟩, queued, hcons⟩ := List.exists_cons_of_ne_nil hqueued
          obtain ⟨es, hes, -⟩ := h.hevents
          have hroom : s.run.active.length < s.run.options.maxConcurrency := by
            rw [hactive, (frame_of_start hes).1]
            exact hmax
          exact hnot number job queued _ hcons (Step.begin hcons hroom).next?_eq
        cases hreduce : s.run.next? .reduce with
        | some run =>
          have hstep := Step.of_next? hreduce
          refine .of_pure (hgoes (h.of_step rfl hstep rfl ?_) ?_)
          · cases hstep with
            | reduce _ _ _ => exact h.hplaces
          · exact h.load_add_weight_le (e := .reduce) hstep rfl rfl
        | none =>
          refine .of_pure ⟨fun _ => ?_, nofun⟩
          simp only [next?, hqueued, hactive, List.isEmpty_nil, Bool.and_self, if_true,
            Option.map_eq_none_iff] at hreduce
          simp [isComplete, hqueued, hactive, hreduce]

theorem gives_steps {m : Type → Type} [Monad m] [LawfulMonad m] (service : Service m)
    (hmax : 1 ≤ options.maxConcurrency) {n : Nat} (hn : s.load < n)
    (h : Holding (start options cs stores) cancellation [] s) :
    Gives (fun s' => Holding (start options cs stores) cancellation [] s' ∧ s'.run.isComplete = true)
      (steps service n s) := by
  induction n generalizing s with
  | zero => omega
  | succ n ih =>
    refine (gives_step? service hmax h).bind fun next hnext => ?_
    cases next with
    | none => exact .of_pure ⟨h, hnext.1 rfl⟩
    | some s' =>
      obtain ⟨hholding, hload⟩ := hnext.2 s' rfl
      refine .bind_of_forall fun _ => ?_
      exact ih (by omega) hholding

theorem load_start_lt (options : SynthesisOptions) (cs : List Chunk) (stores : ContextStores)
    (cancellation : Cancellation) :
    load { run := start options cs stores, cancellation } <
      stepBound (start options cs stores) := by
  have hlimit : options.policy.callLimit ≤ options.policy.maxAttempts + 1 := by
    unfold RetryPolicy.callLimit
    omega
  simp only [load, potential, activeWeight, reductionsLeft, pending, start, stepBound, queueWeight,
    corpusWeight, List.map_nil, List.sum_nil, length_numbered, List.nil_append, List.length_nil]
  generalize (jobs options.hierarchical cs stores).length = n
  have hplan := Nat.mul_le_mul_left n
    (show 4 * options.policy.callLimit + 1 ≤ 4 * (options.policy.maxAttempts + 1) + 3 by omega)
  rw [Nat.add_mul]
  simp
  omega

end Start

end ClockedRun

namespace Run

/-- **A run under a clock is complete at its end**, and has come there by events that are possible:
    whatever the replies are, however long they take, and whenever the run is cancelled. -/
theorem gives_drive {m : Type → Type} [Monad m] [LawfulMonad m] (service : Service m)
    (cancellation : Cancellation) (options : SynthesisOptions) (cs : List Chunk)
    (stores : ContextStores) (hmax : 1 ≤ options.maxConcurrency) :
    Gives (fun s => s.run.isComplete = true ∧ ∃ es, (start options cs stores).after? es = some s.run ∧
        (cancellation = .never → ∀ e ∈ es, e.isCancel = false))
      ((start options cs stores).drive service cancellation) := by
  have hfirst : ClockedRun.Holding (start options cs stores) cancellation []
      { run := start options cs stores, cancellation } :=
    ⟨rfl, ⟨[], rfl, by simp⟩, List.Perm.refl _⟩
  have hload := ClockedRun.load_start_lt options cs stores cancellation
  refine (ClockedRun.gives_steps service hmax ?_ hfirst.checkCancel).mono fun s hs =>
    ⟨hs.2, hs.1.hevents⟩
  exact Nat.lt_of_le_of_lt (ClockedRun.load_checkCancel_le _) hload

end Run

end SourceDocs
