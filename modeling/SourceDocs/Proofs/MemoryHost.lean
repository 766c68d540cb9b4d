import SourceDocs.Command.Inspect
import SourceDocs.MemoryHost
import SourceDocs.Proofs.Files.System
import SourceDocs.Proofs.Synthesis.Clocked

set_option autoImplicit false

/-! # Hosts in memory: what programs do on them

`MemoryHost.answering` is a host whose HTTP service gives each request its own reply. Programs on it
are told by what they do to its state: those that read files only (`Reads`), and those that do the
same whatever was told about the progress before (`SkipsProgress`), as all parts of a run do. -/

namespace SourceDocs

theorem Text.decode?_toUTF8 (s : String) : Text.decode? s.toUTF8 = some s :=
  dif_pos s.isValidUTF8

namespace MemoryHost

/-- The host in memory whose HTTP service gives each request the reply that belongs to it. -/
def answering (answer : HttpRequest → HttpReply) : Host (StateM MemoryHost) :=
  { host with send := fun r s => (answer r, { s with requests := s.requests ++ [r] }) }

variable {answer : HttpRequest → HttpReply} {α β : Type} {s t u : MemoryHost}

/-! ## Runs of programs that may end in a fault -/

section Runs

variable {x : Hosted (StateM MemoryHost) α} {f : α → Hosted (StateM MemoryHost) β}

theorem run_lift {x : StateM MemoryHost α} {a : α} (h : x.run s = (a, t)) :
    (liftM x : Hosted (StateM MemoryHost) α).run.run s = (.ok a, t) := by
  show ((Except.ok (x.run s).1 : Except Fault α), (x.run s).2) = _
  rw [h]

theorem run_bind_ok {a : α} (h : x.run.run s = (.ok a, t)) :
    (x >>= f).run.run s = (f a).run.run t := by
  rw [ExceptT.run_bind, StateT.run_bind, h]
  rfl

theorem run_bind_error {e : Fault} (h : x.run.run s = (.error e, t)) :
    (x >>= f).run.run s = (.error e, t) := by
  rw [ExceptT.run_bind, StateT.run_bind, h]
  rfl

theorem of_run_bind_eq_ok {b : β} (h : (x >>= f).run.run s = (.ok b, u)) :
    ∃ a t, x.run.run s = (.ok a, t) ∧ (f a).run.run t = (.ok b, u) := by
  cases hx : x.run.run s with
  | mk r t =>
    cases r with
    | ok a => exact ⟨a, t, rfl, (run_bind_ok hx).symm.trans h⟩
    | error e => cases (run_bind_error hx).symm.trans h

end Runs

/-! ## Printing and saving -/

theorem run_report (answer : HttpRequest → HttpReply) (mode : ProgressMode) (e : ProgressEvent)
    (s : MemoryHost) :
    ∃ progress, ((answering answer).report mode e).run s = ((), { s with progress }) := by
  unfold Host.report
  split
  · exact ⟨_, rfl⟩
  · exact ⟨s.progress, rfl⟩

theorem run_printLines (lines : List String) (s : MemoryHost) :
    ((answering answer).printLines lines).run s = ((), { s with output := s.output ++ lines }) := by
  induction lines generalizing s with
  | nil =>
    rw [List.append_nil]
    rfl
  | cons line rest ih =>
    have hrest := ih { s with output := s.output ++ [line] }
    rw [List.append_assoc] at hrest
    exact hrest

theorem run_writeText (answer : HttpRequest → HttpReply) (path text : String) (s : MemoryHost) :
    ((answering answer).writeText path text).run s =
      match s.files.write? path text.toUTF8 .epoch with
      | some files => (true, { s with files })
      | none => (false, s) := rfl

theorem run_makeDirectories (answer : HttpRequest → HttpReply) (path : String) (s : MemoryHost) :
    ((answering answer).makeDirectories path).run s =
      match s.files.makeDirectories? path with
      | some files => (true, { s with files })
      | none => (false, s) := rfl

/-- A text is written if the file system can hold it, and nothing else changes. -/
theorem run_write_eq_ok {path text : String} :
    (do
      if ← (answering answer).writeText path text then pure () else throw (.unwritable path) :
      Hosted (StateM MemoryHost) Unit).run.run s = (.ok (), t) ↔
      ∃ files, s.files.write? path text.toUTF8 .epoch = some files ∧ t = { s with files } := by
  have hrun := run_writeText answer path text s
  cases hwrite : s.files.write? path text.toUTF8 .epoch with
  | none =>
    rw [hwrite] at hrun
    rw [run_bind_ok (run_lift hrun)]
    constructor
    · intro h
      cases h
    · rintro ⟨files, hfiles, -⟩
      cases hfiles
  | some files =>
    rw [hwrite] at hrun
    rw [run_bind_ok (run_lift hrun)]
    constructor
    · intro h
      cases h
      exact ⟨files, rfl, rfl⟩
    · rintro ⟨files', hfiles, rfl⟩
      cases hfiles
      rfl

/-- A text is saved if the file system can hold it, and nothing else changes. -/
theorem run_save_eq_ok {path text : String} :
    ((answering answer).save path text).run.run s = (.ok (), t) ↔
      ∃ files, s.files.save? path text.toUTF8 .epoch = some files ∧ t = { s with files } := by
  unfold Host.save FileSystem.save?
  cases Path.parent? path with
  | none => exact run_write_eq_ok
  | some above =>
    dsimp only
    rw [Option.getD_some]
    by_cases hempty : above = ""
    · subst hempty
      exact run_write_eq_ok
    · rw [if_pos hempty]
      have hrun := run_makeDirectories answer above s
      cases hmade : s.files.makeDirectories? above with
      | none =>
        rw [hmade] at hrun
        rw [run_bind_ok (run_lift hrun)]
        constructor
        · intro h
          cases h
        · rintro ⟨files, hfiles, -⟩
          cases hfiles
      | some files =>
        rw [hmade] at hrun
        rw [run_bind_ok (run_lift hrun)]
        exact run_write_eq_ok

/-! ## Programs that read -/

/-- A program gives something that the files decide, and changes nothing. -/
def Reads (x : StateM MemoryHost α) : Prop :=
  ∀ files, ∃ a, ∀ s : MemoryHost, s.files = files → x.run s = (a, s)

theorem Reads.of_pure (a : α) : Reads (pure a) :=
  fun _ => ⟨a, fun _ _ => rfl⟩

theorem Reads.bind {x : StateM MemoryHost α} {f : α → StateM MemoryHost β} (hx : Reads x)
    (hf : ∀ a, Reads (f a)) : Reads (x >>= f) := by
  intro files
  obtain ⟨a, ha⟩ := hx files
  obtain ⟨b, hb⟩ := hf a files
  refine ⟨b, fun s hs => ?_⟩
  rw [StateT.run_bind, ha s hs]
  exact hb s hs

theorem reads_readText (path : String) : Reads ((answering answer).readText path) :=
  fun files => ⟨(files.read? path).bind Text.decode?, fun _ hs => hs ▸ rfl⟩

theorem reads_isFile (path : String) : Reads ((answering answer).isFile path) :=
  fun files => ⟨files.isFile path, fun _ hs => hs ▸ rfl⟩

theorem reads_walk (path : String) (follow : Bool) : Reads ((answering answer).walk path follow) :=
  fun files => ⟨files.walk? follow path, fun _ hs => hs ▸ rfl⟩

/-! ## Programs that skip the progress -/

/-- A program does the same whatever was told about the progress before. -/
def SkipsProgress (x : StateM MemoryHost α) : Prop :=
  ∀ (s : MemoryHost) progress, ∃ progress', x.run { s with progress } =
    ((x.run s).1, { (x.run s).2 with progress := progress' })

theorem SkipsProgress.of_pure (a : α) : SkipsProgress (pure a) :=
  fun _ progress => ⟨progress, rfl⟩

theorem SkipsProgress.bind {x : StateM MemoryHost α} {f : α → StateM MemoryHost β}
    (hx : SkipsProgress x) (hf : ∀ a, SkipsProgress (f a)) : SkipsProgress (x >>= f) := by
  intro s progress
  obtain ⟨between, hfirst⟩ := hx s progress
  obtain ⟨progress', hrest⟩ := hf (x.run s).1 (x.run s).2 between
  refine ⟨progress', ?_⟩
  rw [StateT.run_bind, hfirst]
  exact hrest

theorem SkipsProgress.map {x : StateM MemoryHost α} (f : α → β) (hx : SkipsProgress x) :
    SkipsProgress (f <$> x) := by
  rw [map_eq_pure_bind]
  exact hx.bind fun a => .of_pure (f a)

theorem skipsProgress_send (r : HttpRequest) : SkipsProgress ((answering answer).send r) :=
  fun _ progress => ⟨progress, rfl⟩

theorem skipsProgress_report (mode : ProgressMode) (e : ProgressEvent) :
    SkipsProgress ((answering answer).report mode e) := by
  unfold Host.report
  split
  · exact fun _ progress => ⟨progress ++ [_], rfl⟩
  · exact .of_pure ()

theorem SkipsProgress.forM {f : α → StateM MemoryHost PUnit} (hf : ∀ a, SkipsProgress (f a))
    (as : List α) : SkipsProgress (as.forM f) := by
  induction as with
  | nil => exact .of_pure _
  | cons a rest ih => exact (hf a).bind fun _ => ih

/-! ## Runs on a host in memory -/

/-- All that a service does skips the progress. -/
structure ServiceSkipsProgress (service : Service (StateM MemoryHost)) : Prop where
  answer : ∀ prompt, SkipsProgress (service.generator.answer prompt)
  sleep : ∀ time, SkipsProgress (service.sleep time)
  report : ∀ e, SkipsProgress (service.report e)

section Runs

variable {service : Service (StateM MemoryHost)}

theorem skipsProgress_proceed (h : ServiceSkipsProgress service) (r : ClockedRun) (number : Nat) :
    SkipsProgress (r.proceed service number) := by
  unfold ClockedRun.proceed
  split
  · split
    · exact .of_pure _
    · split
      · exact .of_pure _
      · exact .of_pure _
  · refine (h.answer _).bind fun reply => ?_
    split
    · exact .of_pure _
    · dsimp only
      split
      · exact .of_pure _
      · exact .of_pure _
  · exact .of_pure _

theorem skipsProgress_step? (h : ServiceSkipsProgress service) (r : ClockedRun) :
    SkipsProgress (r.step? service) := by
  unfold ClockedRun.step?
  split
  · exact .of_pure _
  · split
    · exact (skipsProgress_proceed h _ _).bind fun next => .of_pure _
    · split
      · exact (h.sleep _).bind fun _ => .of_pure _
      · exact .of_pure _

theorem skipsProgress_steps (h : ServiceSkipsProgress service) (n : Nat) (r : ClockedRun) :
    SkipsProgress (r.steps service n) := by
  induction n generalizing r with
  | zero => exact .of_pure _
  | succ n ih =>
    refine (skipsProgress_step? h r).bind fun next => ?_
    cases next with
    | none => exact .of_pure _
    | some next => exact (SkipsProgress.forM h.report _).bind fun _ => ih next

/-- **What a run comes to does not depend on the progress told before.** -/
theorem skipsProgress_drive (h : ServiceSkipsProgress service) (cancellation : Cancellation)
    (r : Run) : SkipsProgress (r.drive service cancellation) :=
  skipsProgress_steps h _ _

/-- What a program gives on any account, it gives on this host. -/
theorem of_run_of_gives {P : α → Prop} {x : StateM MemoryHost α} {a : α} (hx : Gives P x)
    (h : x.run s = (a, t)) : P a := by
  obtain ⟨y, rfl⟩ := hx
  rw [StateT.run_map] at h
  cases h
  exact (y.run s).1.2

end Runs

end MemoryHost

end SourceDocs
