import FileExtractor.Frontend.DownloadPage

/-!
# Polling does not follow the task to its end

The page compares the status of an answer with `COMPLETED`, which no task has, and the `clearPoll`
of the callback has the `pollInterval` of the render before the start, which is `null`. So the page
follows a task exactly as long as no answer shows its end.
-/

namespace FileExtractor

open Lts

namespace DownloadPage

/-! ## Before the first start -/

/-- An idle page has not polled. -/
def Quiet (p : DownloadPage) : Prop :=
  p.state.status = .idle → p.pollInterval = none ∧ p.intervals = [] ∧ p.requests = []

@[simp] theorem state_setPollInterval (value : Option Handle) (p : DownloadPage) :
    (p.setPollInterval value).state = p.state := by
  unfold setPollInterval
  split
  · rfl
  · split <;> rfl

@[simp] theorem state_clearPoll (pollInterval : Option Handle) (p : DownloadPage) :
    (p.clearPoll pollInterval).state = p.state := by
  cases pollInterval with
  | none => rfl
  | some handle => exact state_setPollInterval none _

theorem statusOf_ne_idle (status : String) : statusOf status ≠ .idle := by
  unfold statusOf
  split
  · nofun
  · split
    · nofun
    · split <;> nofun

@[simp] theorem status_polled (poll : Poll) (task : TaskStatusResponse) (p : DownloadPage) :
    (p.polled poll task).state.status = statusOf task.status := by
  unfold polled
  dsimp only
  split
  · rw [state_clearPoll]
  · rfl

@[simp] theorem clearPoll_none (p : DownloadPage) : p.clearPoll none = p := rfl

/-- A callback without an interval to clear changes the shown state alone. -/
theorem polled_none (taskId : TaskId) (task : TaskStatusResponse) (p : DownloadPage) :
    (p.polled { taskId, pollInterval := none } task).intervals = p.intervals ∧
      (p.polled { taskId, pollInterval := none } task).requests = p.requests ∧
      (p.polled { taskId, pollInterval := none } task).issued = p.issued := by
  unfold polled
  dsimp only
  split <;> exact ⟨rfl, rfl, rfl⟩

theorem Quiet.step {p p' : DownloadPage} {e : Event} (h : Quiet p) (hst : Step p e p') :
    Quiet p' := by
  intro hidle
  cases hst with
  | click h₀ =>
    obtain ⟨h₁, h₂, h₃⟩ := h h₀
    rw [h₁]; exact ⟨h₁, h₂, h₃⟩
  | started taskId now hc => simp [DownloadPage.started] at hidle
  | startFailed message hc => cases hidle
  | tick hi hid =>
    rw [(h hidle).2.1] at hi
    cases hi
  | tickEmpty hi hid => exact h hidle
  | answered task hr =>
    rw [status_polled] at hidle
    exact absurd hidle (statusOf_ne_idle _)
  | pollFailed hr =>
    obtain ⟨h₁, h₂, h₃⟩ := h hidle
    exact ⟨h₁, h₂, by rw [h₃, List.eraseIdx_nil]⟩

theorem quiet : system.Invariant System.free Quiet := by
  refine System.Reach.induct (fun p hp _ => ?_) fun p e p' _ ih _ hst => ih.step (.of_step hst)
  cases hp; exact ⟨rfl, rfl, rfl⟩

theorem statusOf_name_ne_completed (s : TaskStatus) : statusOf s.name ≠ .completed := by
  cases s <;> decide

/-- **No answer completes the page**: no task is stored as `COMPLETED`. -/
theorem never_completed : system.Invariant System.free fun p => p.state.status ≠ .completed := by
  refine System.Reach.induct (fun p hp => ?_) fun p e p' _ ih _ hst => ?_
  · cases hp; nofun
  · cases Step.of_step hst with
    | click h₀ =>
      dsimp only
      rw [state_clearPoll]; exact ih
    | started taskId now hc => simp [DownloadPage.started]
    | startFailed message hc => nofun
    | answered task hr =>
      rw [status_polled]
      exact statusOf_name_ne_completed task.status
    | _ => exact ih

/-! ## After a start -/

/-- The page polls `taskId` with the interval `handle` alone, and has all answers. -/
structure Polling (handle : Handle) (taskId : TaskId) (p : DownloadPage) : Prop where
  intervals : p.intervals = [(handle, { taskId, pollInterval := none })]
  requests : p.requests = []

variable {p p' : DownloadPage} {handle : Handle} {taskId : TaskId}

/-- The start of a quiet page is polling, and its callback has no interval to clear. -/
theorem polling_of_started {now : Time} (hq : Quiet p) (hidle : p.state.status = .idle)
    (hstart : p.starting = []) (hrun : system.run p [.click, .started 0 taskId now] = some p') :
    Polling p.nextHandle taskId p' := by
  obtain ⟨h₁, h₂, h₃⟩ := hq hidle
  have hclick : system.step p .click = some { p with starting := [none] } := by
    simp only [system, step, if_pos hidle, h₁, hstart, List.nil_append, clearPoll_none]
  rw [System.run_cons, hclick, Option.bind_some] at hrun
  simp only [system, System.run, step, List.getElem?_cons_zero, Option.bind_eq_bind,
    Option.bind_some, Option.pure_def, Option.some.injEq] at hrun
  subst hrun
  simp only [DownloadPage.started, setPollInterval, h₁]
  exact ⟨by rw [h₂]; rfl, h₃⟩

/-- The interval fires. -/
theorem Polling.tick (h : Polling handle taskId p) (hid : taskId ≠ "") :
    system.step p (.tick handle) = some { p with
      requests := [{ taskId, pollInterval := none }]
      issued := p.issued + 1 } := by
  simp only [system, step, h.intervals, h.requests]
  simp [hid]

/-- One turn: the interval fires, and its request is answered. -/
theorem Polling.turn (h : Polling handle taskId p) (hid : taskId ≠ "") (t : DownloadTask) :
    ∃ q, system.run p [.tick handle, .answered 0 t] = some q ∧ Polling handle taskId q ∧
      q.state.status = statusOf t.status.name := by
  obtain ⟨hi, hr, -⟩ := polled_none taskId (taskToResponse t) { p with
    requests := []
    issued := p.issued + 1 }
  refine ⟨_, ?_, ⟨hi.trans h.intervals, hr⟩, status_polled ..⟩
  rw [System.run_cons, h.tick hid]
  rfl

/-- The schedule in which each firing is answered before the next one. -/
def turns (handle : Handle) (tasks : List DownloadTask) : List Event :=
  tasks.flatMap fun t => [.tick handle, .answered 0 t]

theorem Polling.turns (h : Polling handle taskId p) (hid : taskId ≠ "")
    (tasks : List DownloadTask) :
    ∃ q, system.run p (turns handle tasks) = some q ∧ Polling handle taskId q := by
  induction tasks generalizing p with
  | nil => exact ⟨p, rfl, h⟩
  | cons t tasks ih =>
    obtain ⟨q, hq, hpoll, -⟩ := h.turn hid t
    obtain ⟨r, hr, hpoll'⟩ := ih hpoll
    refine ⟨r, ?_, hpoll'⟩
    rw [DownloadPage.turns, List.flatMap_cons, System.run_append, hq]
    exact hr

/-! ## The end of a task -/

/-- The tasks of the answers, in the order of their arrival. -/
def answers (es : List Event) : List DownloadTask :=
  es.filterMap fun e => match e with | .answered _ t => some t | _ => none

/-- What the page has to show for the end of a task. -/
def ended : TaskStatus → Option DownloadStatus
  | .success => some .completed
  | .failed => some .error
  | _ => none

/-- In every schedule of firings and answers in which the answers are `tasks`, or the first of them
so far: the first answer that shows the end sets the status, for good, and no request follows it. -/
def Follows (p : DownloadPage) (tasks : List DownloadTask) : Prop :=
  ∀ pre n t post shown, answers (pre ++ .answered n t :: post) <+: tasks →
    (∀ s ∈ answers pre, ended s.status = none) → ended t.status = some shown →
    ∀ q r, system.run p (pre ++ [.answered n t]) = some q → system.run q post = some r →
      r.state.status = shown ∧ r.issued = q.issued

@[simp] theorem answers_turns (handle : Handle) (tasks : List DownloadTask) :
    answers (turns handle tasks) = tasks := by
  induction tasks with
  | nil => rfl
  | cons t tasks ih =>
    rw [turns, List.flatMap_cons]
    exact congrArg (t :: ·) ih

/-- A polling page does not follow a task to its end. -/
theorem Polling.not_follows (h : Polling handle taskId p) (hid : taskId ≠ "")
    {pre rest : List DownloadTask} {t : DownloadTask} {shown : DownloadStatus}
    (hpre : ∀ s ∈ pre, ended s.status = none) (ht : ended t.status = some shown) :
    ¬ Follows p (pre ++ t :: rest) := by
  intro hf
  obtain ⟨q, hq, hpoll⟩ := h.turns hid pre
  obtain ⟨r, hr, hpoll', hshown⟩ := hpoll.turn hid t
  have hanswers : answers ((DownloadPage.turns handle pre ++ [.tick handle]) ++
      .answered 0 t :: [.tick handle]) <+: pre ++ t :: rest := by
    refine ⟨rest, ?_⟩
    have hpre := answers_turns handle pre
    simp only [answers] at hpre ⊢
    simp [hpre]
  have hpre' : ∀ s ∈ answers (DownloadPage.turns handle pre ++ [.tick handle]),
      ended s.status = none := by
    have h := answers_turns handle pre
    simp only [answers] at h ⊢
    simpa [h] using hpre
  have hrun : system.run p ((DownloadPage.turns handle pre ++ [.tick handle]) ++ [.answered 0 t]) =
      some r := by
    rw [List.append_assoc, System.run_append, hq]
    exact hr
  -- the interval fires once more
  obtain ⟨hstatus, hissued⟩ := hf _ 0 t [.tick handle] shown hanswers hpre' ht r _ hrun
    (by rw [System.run_cons, hpoll'.tick hid]; rfl)
  have : r.issued + 1 = r.issued := hissued
  omega

/-- **The page follows a task** from the start of the download exactly as long as no answer shows
its end. -/
theorem follows_iff {now : Time} (hp : system.Reach System.free p) (hidle : p.state.status = .idle)
    (hstart : p.starting = []) (hid : taskId ≠ "")
    (hrun : system.run p [.click, .started 0 taskId now] = some p') (tasks : List DownloadTask) :
    Follows p' tasks ↔ ∀ t ∈ tasks, t.status ≠ .success ∧ t.status ≠ .failed := by
  have hended : ∀ s, ended s = none ↔ s ≠ .success ∧ s ≠ .failed := by
    intro s
    cases s <;> simp [ended]
  constructor
  · intro hf
    by_contra hex
    have hpoll := polling_of_started (quiet p hp) hidle hstart hrun
    cases hfind : tasks.find? fun t => (ended t.status).isSome with
    | none =>
      refine hex fun t ht => (hended _).mp ?_
      simpa using List.find?_eq_none.mp hfind t ht
    | some t =>
      obtain ⟨ht, pre, rest, rfl, hpre⟩ := List.find?_eq_some_iff_append.mp hfind
      obtain ⟨shown, hshown⟩ := Option.isSome_iff_exists.mp ht
      exact hpoll.not_follows hid (fun s hs => by simpa using hpre s hs) hshown hf
  · intro h pre n t post shown hanswers _ ht
    have hmem : t ∈ tasks := hanswers.subset (by simp [answers])
    rw [(hended _).mpr (h t hmem)] at ht
    cases ht

/-- A task with an id and a status. -/
def taskWith (id : TaskId) (status : TaskStatus) : DownloadTask :=
  { DownloadTask.new id "c" with status := status }

theorem follows_running : ∃ p, system.run initial [.click, .started 0 "t" 0] = some p ∧
    Follows p [taskWith "t" .pending, taskWith "t" .running] :=
  have hrun : system.run initial [.click, .started 0 "t" 0] = some _ := rfl
  ⟨_, hrun, (follows_iff (.init rfl) rfl rfl (by decide) hrun _).mpr (by decide)⟩

/-- A task that has succeeded is shown as running, and is polled again. -/
theorem success_not_followed : ∃ p q, system.run initial [.click, .started 0 "t" 0] = some p ∧
    system.run p [.tick 1, .answered 0 (taskWith "t" .success), .tick 1] = some q ∧
    q.state.status = .running ∧ q.issued = 2 ∧ ¬ Follows p [taskWith "t" .success] := by
  have hpoll : Polling 1 "t" (started none "t" 0 initial) := ⟨rfl, rfl⟩
  have hnot : ¬ Follows (started none "t" 0 initial) ([] ++ taskWith "t" .success :: []) :=
    hpoll.not_follows (by decide) (by simp) rfl
  exact ⟨_, _, rfl, rfl, rfl, rfl, hnot⟩

end DownloadPage

end FileExtractor
