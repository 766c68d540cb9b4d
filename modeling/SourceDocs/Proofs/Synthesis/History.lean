import SourceDocs.Proofs.Synthesis.Stage

set_option autoImplicit false

/-! # History of a run: the calls and the replies of each request

`History r es` ties what a run knows of a request to the events so far: a request that is active has
failed once for every call but the one under way, and every failure was worth another call; one that
has ended did so by its last reply, or gave up because the run was cancelled. A request that has not
started has neither calls nor replies. Every step keeps this (`History.of_step`), so it holds after
every list of events (`history_of_start`). -/

namespace SourceDocs

namespace Run

/-- The replies to a request, in the order in which they came. -/
def repliesTo (number : Nat) (es : List Event) : List Reply :=
  es.filterMap fun e =>
    match e with
    | .reply n reply => if n = number then some reply else none
    | _ => none

/-- The number of calls made for a request. -/
def callCount (r : Run) (number : Nat) : Nat :=
  r.calls.countP fun c => c.1 = number

/-- Each reply was an error after which a request goes on. -/
def Tried (p : RetryPolicy) (replies : List Reply) : Prop :=
  ∀ i reply, replies[i]? = some reply → ∃ e, reply = .error e ∧ p.goesOn (i + 1) e = true

/-- What the calls and the replies of an active request are. -/
def Underway (p : RetryPolicy) (phase : Phase) (calls : Nat) (replies : List Reply) : Prop :=
  match phase with
  | .waiting attempts => calls = attempts ∧ replies.length = attempts ∧ Tried p replies
  | .calling attempts => calls = attempts ∧ replies.length + 1 = attempts ∧ Tried p replies

/-- How replies bring a request to its end; it gives up only if the run is cancelled. -/
inductive Concluded (p : RetryPolicy) (cancelled : Bool) : List Reply → Outcome → Prop where
  | succeeded {replies : List Reply} (text : String) (htried : Tried p replies) :
      Concluded p cancelled (replies ++ [.ok text]) (.ok text)
  | failed {replies : List Reply} (e : GenerationError) (htried : Tried p replies)
      (hstop : p.goesOn (replies.length + 1) e = false) :
      Concluded p cancelled (replies ++ [.error e]) (.error ⟨e, replies.length + 1⟩)
  | gaveUp {replies : List Reply} (htried : Tried p replies) (hcancelled : cancelled = true) :
      Concluded p cancelled replies (.error ⟨.cancelled, replies.length⟩)

/-- What a run knows of its requests, in terms of the events so far. -/
structure History (r : Run) (es : List Event) : Prop where
  hactive : ∀ a ∈ r.active,
    Underway r.options.policy a.phase (r.callCount a.number) (repliesTo a.number es)
  hsettled : ∀ s ∈ r.settled, r.callCount s.number = (repliesTo s.number es).length ∧
    Concluded r.options.policy r.cancelled (repliesTo s.number es) s.outcome
  hfresh : ∀ n, n ∉ r.active.map ActiveJob.number → n ∉ r.settled.map SettledJob.number →
    r.callCount n = 0 ∧ repliesTo n es = []
  hcalls : ∀ c ∈ r.calls,
    c ∈ r.active.map ActiveJob.entry ∨ c ∈ r.settled.map SettledJob.entry

/-- The requests of a run that have started. -/
def started (r : Run) : List (Nat × Job) :=
  r.active.map ActiveJob.entry ++ r.settled.map SettledJob.entry

/-! ## Replies and calls -/

variable {p : RetryPolicy}

theorem tried_nil : Tried p [] := by
  intro i reply h
  simp at h

theorem tried_concat {replies : List Reply} {reply : Reply} :
    Tried p (replies ++ [reply]) ↔
      Tried p replies ∧ ∃ e, reply = .error e ∧ p.goesOn (replies.length + 1) e = true := by
  constructor
  · intro h
    refine ⟨fun i x hx => h i x ?_, h replies.length reply (by simp)⟩
    rw [List.getElem?_append_left (List.getElem?_eq_some_iff.1 hx).1]
    exact hx
  · rintro ⟨htried, hreply⟩ i x hx
    rcases Nat.lt_trichotomy i replies.length with hlt | rfl | hgt
    · exact htried i x (by rwa [List.getElem?_append_left hlt] at hx)
    · simp only [List.getElem?_concat_length, Option.some.injEq] at hx
      exact hx ▸ hreply
    · rw [List.getElem?_eq_none (by simp; omega)] at hx
      cases hx

theorem repliesTo_append (number : Nat) (es fs : List Event) :
    repliesTo number (es ++ fs) = repliesTo number es ++ repliesTo number fs :=
  List.filterMap_append

@[simp] theorem repliesTo_reply_self (number : Nat) (reply : Reply) :
    repliesTo number [.reply number reply] = [reply] := by
  simp [repliesTo]

theorem repliesTo_reply_of_ne {n number : Nat} (reply : Reply) (h : number ≠ n) :
    repliesTo number [.reply n reply] = [] := by
  simp [repliesTo, Ne.symm h]

@[simp] theorem repliesTo_begin (number : Nat) : repliesTo number [.begin] = [] := rfl

@[simp] theorem repliesTo_resume (number n : Nat) : repliesTo number [.resume n] = [] := rfl

@[simp] theorem repliesTo_cancel (number : Nat) : repliesTo number [.cancel] = [] := rfl

@[simp] theorem repliesTo_reduce (number : Nat) : repliesTo number [.reduce] = [] := rfl

/-- Only calls that were made count. -/
theorem exists_call_of_callCount_pos {r : Run} {n : Nat} (h : 0 < r.callCount n) :
    ∃ c ∈ r.calls, c.1 = n := by
  obtain ⟨c, hc, hn⟩ := List.countP_pos_iff.1 h
  exact ⟨c, hc, by simpa using hn⟩

theorem Concluded.of_cancelled {cancelled : Bool} {replies : List Reply} {o : Outcome}
    (h : Concluded p cancelled replies o) : Concluded p true replies o := by
  cases h with
  | succeeded text htried => exact .succeeded text htried
  | failed e htried hstop => exact .failed e htried hstop
  | gaveUp htried _ => exact .gaveUp htried rfl

/-! ## What the replies say about the outcome -/

/-- A request whose replies all left it going on has given up. -/
theorem Concluded.of_tried {cancelled : Bool} {replies : List Reply} {o : Outcome}
    (h : Concluded p cancelled replies o) (htried : Tried p replies) :
    o = .error ⟨.cancelled, replies.length⟩ ∧ cancelled = true := by
  cases h with
  | succeeded text _ =>
    obtain ⟨-, e, he, -⟩ := tried_concat.1 htried
    cases he
  | failed e _ hstop =>
    obtain ⟨-, e', he, hgo⟩ := tried_concat.1 htried
    cases he
    rw [hstop] at hgo
    cases hgo
  | gaveUp _ hcancelled => exact ⟨rfl, hcancelled⟩

/-- A request that has a text or an error after which it does not go on ends by that. -/
theorem Concluded.of_last {cancelled : Bool} {replies : List Reply} {reply : Reply} {o : Outcome}
    (h : Concluded p cancelled (replies ++ [reply]) o)
    (hlast : ¬ Tried p (replies ++ [reply])) :
    o = reply.mapError fun e => ⟨e, replies.length + 1⟩ := by
  generalize hall : replies ++ [reply] = all at h hlast
  cases h with
  | succeeded text _ =>
    obtain ⟨rfl, hreply⟩ := List.append_inj' hall rfl
    cases hreply
    rfl
  | failed e _ _ =>
    obtain ⟨rfl, hreply⟩ := List.append_inj' hall rfl
    cases hreply
    rfl
  | gaveUp htried _ => exact absurd htried hlast

/-- A request that went on until its last reply has ended by it, or given up after it. -/
theorem Concluded.of_reply {cancelled : Bool} {replies : List Reply} {reply : Reply} {o : Outcome}
    (h : Concluded p cancelled (replies ++ [reply]) o) (htried : Tried p replies) :
    (∃ text, reply = .ok text ∧ o = .ok text) ∨
      (∃ e, reply = .error e ∧ p.goesOn (replies.length + 1) e = false ∧
        o = .error ⟨e, replies.length + 1⟩) ∨
      ∃ e, reply = .error e ∧ p.goesOn (replies.length + 1) e = true ∧
        o = .error ⟨.cancelled, replies.length + 1⟩ := by
  by_cases hall : Tried p (replies ++ [reply])
  · obtain ⟨-, e, rfl, hgo⟩ := tried_concat.1 hall
    refine Or.inr (Or.inr ⟨e, rfl, hgo, ?_⟩)
    rw [(h.of_tried hall).1, List.length_append, List.length_singleton]
  · have ho := h.of_last hall
    cases reply with
    | ok text => exact Or.inl ⟨text, rfl, ho⟩
    | error e =>
      refine Or.inr (Or.inl ⟨e, rfl, ?_, ho⟩)
      rw [Bool.eq_false_iff]
      exact fun hgo => hall (tried_concat.2 ⟨htried, e, rfl, hgo⟩)

/-- A request that has ended went on after all of its calls but the last. -/
theorem Concluded.tried_of_lt {replies : List Reply} {o : Outcome}
    (h : Concluded p false replies o) {n : Nat} (hn : n < replies.length) :
    Tried p (replies.take n) := by
  -- however it has ended, the first `n` replies are among those after which it went on
  have hpart : ∀ {earlier : List Reply} {last : Reply}, Tried p earlier →
      n < (earlier ++ [last]).length → Tried p ((earlier ++ [last]).take n) := by
    intro earlier last htried hlt i reply hreply
    rw [List.length_append, List.length_singleton] at hlt
    rw [List.take_append_of_le_length (by omega)] at hreply
    have hi := (List.getElem?_eq_some_iff.1 hreply).1
    rw [List.length_take] at hi
    rw [List.getElem?_take_of_lt (by omega)] at hreply
    exact htried i reply hreply
  cases h with
  | succeeded text htried => exact hpart htried hn
  | failed e htried hstop => exact hpart htried hn
  | gaveUp _ hcancelled => cases hcancelled

/-! ## Steps keep the history -/

variable {plan : List Job} {r r' : Run} {es : List Event}

/-- No request is active and has ended. -/
theorem Stage.number_ne (h : Stage plan r) {a : ActiveJob} {s : SettledJob} (ha : a ∈ r.active)
    (hs : s ∈ r.settled) : s.number ≠ a.number := by
  have hnodup := h.nodup
  rw [pending, List.map_append, List.map_append, List.nodup_append] at hnodup
  intro heq
  refine hnodup.2.2 a.number ?_ s.number ?_ heq.symm
  · exact List.mem_append_left _ (List.mem_map_of_mem (List.mem_map_of_mem ha))
  · exact List.mem_map_of_mem (List.mem_map_of_mem hs)

/-- The first request of the queue has not started. -/
theorem Stage.head_fresh (h : Stage plan r) {number : Nat} {job : Job}
    {queued : List (Nat × Job)} (hqueued : r.queued = (number, job) :: queued) :
    number ∉ r.active.map ActiveJob.number ∧ number ∉ r.settled.map SettledJob.number := by
  have hnodup := h.nodup
  simp only [pending, hqueued, List.map_append, List.map_map, List.map_cons,
    List.nodup_append, List.mem_append, List.mem_cons] at hnodup
  constructor
  · intro hmem
    exact hnodup.1.2.2 number hmem number (Or.inl rfl) rfl
  · intro hmem
    exact hnodup.2.2 number (Or.inr (Or.inl rfl)) number hmem rfl

theorem mem_entries_of_started {x : Nat × Job} (hx : x ∈ r.started) :
    x ∈ r.pending ++ r.settled.map SettledJob.entry := by
  rw [pending, List.append_assoc, List.mem_append, List.mem_append]
  exact (List.mem_append.1 hx).imp_right Or.inr

theorem History.started_of_call (h : History r es) {c : Nat × Job} (hc : c ∈ r.calls) :
    c ∈ r.started :=
  List.mem_append.2 (h.hcalls c hc)

theorem History.of_waiting {number attempts : Nat} {a : ActiveJob} (h : History r es)
    (hfind : r.find? number = some a) (hphase : a.phase = .waiting attempts) :
    r.callCount number = attempts ∧ (repliesTo number es).length = attempts ∧
      Tried r.options.policy (repliesTo number es) := by
  have hunderway := h.hactive a (mem_active_of_find? hfind)
  rw [hphase, number_of_find? hfind] at hunderway
  exact hunderway

theorem History.of_calling {number attempts : Nat} {a : ActiveJob} (h : History r es)
    (hfind : r.find? number = some a) (hphase : a.phase = .calling attempts) :
    r.callCount number = attempts ∧ (repliesTo number es).length + 1 = attempts ∧
      Tried r.options.policy (repliesTo number es) := by
  have hunderway := h.hactive a (mem_active_of_find? hfind)
  rw [hphase, number_of_find? hfind] at hunderway
  exact hunderway

/-- An event that touches neither calls nor replies leaves all requests where they are. -/
theorem History.of_idle {ev : Event} (h : History r es) (hreplies : ∀ m, repliesTo m [ev] = [])
    (hoptions : r'.options = r.options) (hactive : r'.active = r.active)
    (hsettled : r'.settled = r.settled) (hcalls : r'.calls = r.calls)
    (hcancelled : r'.cancelled = r.cancelled ∨ r'.cancelled = true) : History r' (es ++ [ev]) := by
  have hsame : ∀ m, repliesTo m (es ++ [ev]) = repliesTo m es := by
    intro m
    rw [repliesTo_append, hreplies, List.append_nil]
  have hcount : ∀ m, r'.callCount m = r.callCount m := by
    intro m
    rw [callCount, hcalls, callCount]
  refine ⟨?_, ?_, ?_, ?_⟩
  · intro a ha
    rw [hoptions, hsame, hcount]
    exact h.hactive a (hactive ▸ ha)
  · intro s hs
    rw [hoptions, hsame, hcount]
    refine ⟨(h.hsettled s (hsettled ▸ hs)).1, ?_⟩
    rcases hcancelled with hkept | hset
    · rw [hkept]
      exact (h.hsettled s (hsettled ▸ hs)).2
    · rw [hset]
      exact (h.hsettled s (hsettled ▸ hs)).2.of_cancelled
  · intro n hna hns
    rw [hsame, hcount]
    exact h.hfresh n (hactive ▸ hna) (hsettled ▸ hns)
  · rw [hcalls, hactive, hsettled]
    exact h.hcalls

theorem mem_setPhase_active {number : Nat} {phase : Phase} {a b : ActiveJob}
    (hnodup : (r.active.map ActiveJob.number).Nodup) (hfind : r.find? number = some a)
    (hb : b ∈ (r.setPhase number phase).active) :
    b = { a with phase } ∨ (b ∈ r.active ∧ b.number ≠ number) := by
  have hb' := (setPhase_active_perm phase hnodup hfind).mem_iff.1 hb
  rw [List.mem_cons, List.mem_filter] at hb'
  rw [← number_of_find? hfind]
  simpa using hb'

/-- An active request moves to another phase, as its calls and replies say. -/
theorem History.of_setPhase {number : Nat} (phase : Phase) {a : ActiveJob} {ev : Event}
    (h : History r es) (hstage : Stage plan r) (hfind : r.find? number = some a)
    (hoptions : r'.options = r.options) (hcancelled : r'.cancelled = r.cancelled)
    (hactive : r'.active = (r.setPhase number phase).active) (hsettled : r'.settled = r.settled)
    (hcalls : ∀ c ∈ r'.calls, c ∈ r.calls ∨ c = (number, a.job))
    (hothers : ∀ m, m ≠ number →
      r'.callCount m = r.callCount m ∧ repliesTo m (es ++ [ev]) = repliesTo m es)
    (hself : Underway r.options.policy phase (r'.callCount number)
      (repliesTo number (es ++ [ev]))) :
    History r' (es ++ [ev]) := by
  have hnumber := number_of_find? hfind
  have hmem := mem_active_of_find? hfind
  refine ⟨?_, ?_, ?_, ?_⟩
  · intro b hb
    rw [hactive] at hb
    rw [hoptions]
    rcases mem_setPhase_active hstage.nodup_active hfind hb with rfl | ⟨hb, hne⟩
    · simpa only [hnumber] using hself
    · rw [(hothers b.number hne).1, (hothers b.number hne).2]
      exact h.hactive b hb
  · intro s hs
    rw [hsettled] at hs
    have hne : s.number ≠ number := hnumber ▸ hstage.number_ne hmem hs
    rw [hoptions, hcancelled, (hothers s.number hne).1, (hothers s.number hne).2]
    exact h.hsettled s hs
  · intro n hna hns
    rw [hactive, setPhase_active_map_number] at hna
    rw [hsettled] at hns
    have hne : n ≠ number := by
      rintro rfl
      exact hna (hnumber ▸ List.mem_map_of_mem hmem)
    rw [(hothers n hne).1, (hothers n hne).2]
    exact h.hfresh n hna hns
  · intro c hc
    rw [hactive, setPhase_active_map_entry, hsettled]
    rcases hcalls c hc with hc | rfl
    · exact h.hcalls c hc
    · refine Or.inl ?_
      rw [← hnumber]
      exact List.mem_map_of_mem hmem

/-- An active request ends, as its calls and replies say. -/
theorem History.of_settle {a : ActiveJob} {o : Outcome} {ev : Event} (h : History r es)
    (hstage : Stage plan r) (ha : a ∈ r.active)
    (hothers : ∀ m, m ≠ a.number → repliesTo m (es ++ [ev]) = repliesTo m es)
    (hcount : r.callCount a.number = (repliesTo a.number (es ++ [ev])).length)
    (hself : Concluded r.options.policy r.cancelled (repliesTo a.number (es ++ [ev])) o) :
    History (r.settle a o) (es ++ [ev]) := by
  refine ⟨?_, ?_, ?_, ?_⟩
  · intro b hb
    rw [settle_active, List.mem_filter] at hb
    rw [hothers b.number (by simpa using hb.2)]
    exact h.hactive b hb.1
  · intro s hs
    rw [settle_settled, List.mem_append, List.mem_singleton] at hs
    rcases hs with hs | rfl
    · rw [hothers s.number (hstage.number_ne ha hs)]
      exact h.hsettled s hs
    · exact ⟨hcount, hself⟩
  · intro n hna hns
    rw [settle_settled, List.map_append, List.mem_append, not_or] at hns
    have hne : n ≠ a.number := by simpa using hns.2
    rw [hothers n hne]
    refine h.hfresh n (fun hmem => hna ?_) hns.1
    obtain ⟨b, hb, rfl⟩ := List.mem_map.1 hmem
    exact List.mem_map_of_mem (List.mem_filter.2 ⟨hb, by simpa using hne⟩)
  · intro c hc
    rw [settle_settled, List.map_append, List.mem_append]
    rcases h.hcalls c hc with hc | hc
    · obtain ⟨b, hb, rfl⟩ := List.mem_map.1 hc
      by_cases hba : b.number = a.number
      · obtain rfl := List.inj_on_of_nodup_map hstage.nodup_active hb ha hba
        exact Or.inr (Or.inr (List.mem_singleton.2 rfl))
      · exact Or.inl (List.mem_map_of_mem (List.mem_filter.2 ⟨hb, by simpa using hba⟩))
    · exact Or.inr (Or.inl hc)

/-- **Every step keeps the history.** A call adds one to the calls of its request and a reply one to
    its replies; nothing else touches either. -/
theorem History.of_step {ev : Event} (h : History r es) (hstage : Stage plan r)
    (hstep : Step r ev r') : History r' (es ++ [ev]) := by
  cases hstep with
  | @begin number job queued hqueued hroom =>
    have hfresh := hstage.head_fresh hqueued
    refine ⟨?_, ?_, ?_, ?_⟩
    · intro a ha
      rw [repliesTo_append, repliesTo_begin, List.append_nil]
      rcases List.mem_append.1 ha with ha | ha
      · exact h.hactive a ha
      · obtain rfl := List.mem_singleton.1 ha
        obtain ⟨hcount, hreplies⟩ := h.hfresh number hfresh.1 hfresh.2
        exact ⟨hcount, by rw [hreplies]; rfl, hreplies ▸ tried_nil⟩
    · intro s hs
      rw [repliesTo_append, repliesTo_begin, List.append_nil]
      exact h.hsettled s hs
    · intro n hna hns
      rw [repliesTo_append, repliesTo_begin, List.append_nil]
      rw [List.map_append, List.mem_append, not_or] at hna
      exact h.hfresh n hna.1 hns
    · intro c hc
      rw [List.map_append, List.mem_append]
      exact (h.hcalls c hc).imp_left Or.inl
  | @call number attempts a hfind hphase hlive =>
    obtain ⟨hcount, hlength, htried⟩ := h.of_waiting hfind hphase
    have hcalls : ∀ m, callCount { r.setPhase number (.calling (attempts + 1)) with
        calls := r.calls ++ [(number, a.job)] } m = r.callCount m + if number = m then 1 else 0 := by
      intro m
      simp [callCount, List.countP_append, List.countP_cons]
    refine h.of_setPhase (.calling (attempts + 1)) hstage hfind rfl rfl rfl rfl ?_ ?_ ?_
    · intro c hc
      simpa using hc
    · intro m hm
      exact ⟨by rw [hcalls, if_neg (Ne.symm hm)]; rfl, by simp [repliesTo_append]⟩
    · rw [hcalls, if_pos rfl, repliesTo_append, repliesTo_resume, List.append_nil]
      exact ⟨by rw [hcount], by rw [hlength], htried⟩
  | @giveUp number attempts a hfind hphase hcancelled =>
    obtain ⟨hcount, hlength, htried⟩ := h.of_waiting hfind hphase
    obtain rfl := number_of_find? hfind
    refine h.of_settle hstage (mem_active_of_find? hfind) ?_ ?_ ?_
    · intro m _
      simp [repliesTo_append]
    · simp [repliesTo_append, hcount, hlength]
    · rw [repliesTo_append, repliesTo_resume, List.append_nil, ← hlength]
      exact .gaveUp htried hcancelled
  | @succeed number attempts a text hfind hphase =>
    obtain ⟨hcount, hlength, htried⟩ := h.of_calling hfind hphase
    obtain rfl := number_of_find? hfind
    refine h.of_settle hstage (mem_active_of_find? hfind) ?_ ?_ ?_
    · intro m hm
      rw [repliesTo_append, repliesTo_reply_of_ne _ hm, List.append_nil]
    · rw [repliesTo_append, repliesTo_reply_self, List.length_append, List.length_singleton,
        hcount, hlength]
    · rw [repliesTo_append, repliesTo_reply_self]
      exact .succeeded text htried
  | @retry number attempts a e hfind hphase hgo =>
    obtain ⟨hcount, hlength, htried⟩ := h.of_calling hfind hphase
    obtain rfl := number_of_find? hfind
    refine h.of_setPhase (.waiting attempts) hstage hfind rfl rfl rfl rfl ?_ ?_ ?_
    · intro c hc
      exact Or.inl hc
    · intro m hm
      exact ⟨rfl, by rw [repliesTo_append, repliesTo_reply_of_ne _ hm, List.append_nil]⟩
    · rw [repliesTo_append, repliesTo_reply_self]
      refine ⟨hcount, by simpa using hlength, tried_concat.2 ⟨htried, e, rfl, ?_⟩⟩
      rw [hlength]
      exact hgo
  | @fail number attempts a e hfind hphase hstop =>
    obtain ⟨hcount, hlength, htried⟩ := h.of_calling hfind hphase
    obtain rfl := number_of_find? hfind
    refine h.of_settle hstage (mem_active_of_find? hfind) ?_ ?_ ?_
    · intro m hm
      rw [repliesTo_append, repliesTo_reply_of_ne _ hm, List.append_nil]
    · rw [repliesTo_append, repliesTo_reply_self, List.length_append, List.length_singleton,
        hcount, hlength]
    · rw [repliesTo_append, repliesTo_reply_self, ← hlength]
      exact .failed e htried (hlength ▸ hstop)
  | cancel => exact h.of_idle repliesTo_cancel rfl rfl rfl rfl (Or.inr rfl)
  | reduce _ _ _ => exact h.of_idle repliesTo_reduce rfl rfl rfl rfl (Or.inl rfl)

theorem history_of_start {options : SynthesisOptions} {cs : List Chunk} {stores : ContextStores}
    (h : (start options cs stores).after? es = some r) : History r es := by
  refine after?_induction (P := fun es s => History s es) ?_ ?_ h
  · exact ⟨by simp [start], by simp [start], by simp [start, callCount, repliesTo], by simp [start]⟩
  · intro es e s s' hs hhistory hstep
    exact hhistory.of_step (stage_of_start hs) hstep

end Run

end SourceDocs
