import FileExtractor.Domain.DownloadTask

/-!
# A call that raises, and a task that is finished

Six of the eight methods refuse a task in the wrong status before they change it, and none of them
accepts a finished one (`Guarded`). The other two are `block`, which sets the status before it
computes a time that may overflow, and `decrease_received`, which has no guard.
`failureAtomic_frozen_iff` says exactly which calls of the two change what they must not.
-/

namespace FileExtractor

namespace DownloadTask

open Objects

def IsFinished (t : DownloadTask) : Prop := t.status = .success ∨ t.status = .failed

/-- The call raises before it changes the task, or returns and the task was not finished. -/
def Guarded (t : DownloadTask) (c : Called DownloadTask) : Prop :=
  (∃ e, c = .raised e t) ∨ (c.isRaised = false ∧ ¬ t.IsFinished)

variable {t : DownloadTask}

theorem not_isFinished_of_running (h : t.status = .running) : ¬ t.IsFinished := by
  simp [IsFinished, h]

theorem Guarded.disciplined {c : Called DownloadTask} (h : Guarded t c) :
    (c.isRaised = true → c.object = t) ∧ (t.IsFinished → c.object = t) := by
  rcases h with ⟨e, rfl⟩ | ⟨hret, hfin⟩
  · exact ⟨fun _ => rfl, fun _ => rfl⟩
  · exact ⟨fun h => absurd h (by simp [hret]), fun h => absurd h hfin⟩

theorem guarded_whenRunning {f : DownloadTask → Called DownloadTask}
    (hf : (f t).isRaised = false) : Guarded t (t.whenRunning f) := by
  by_cases hs : t.status = .running
  · rw [whenRunning_of_running hs]
    exact .inr ⟨hf, not_isFinished_of_running hs⟩
  · exact .inl ⟨_, if_pos hs⟩

theorem guarded_claim (workerId : String) (startedAt lastHeartbeat : Time) :
    Guarded t (t.call (.claim workerId startedAt lastHeartbeat)) := by
  by_cases hs : t.status = .pending
  · have hclaim : t.claim workerId startedAt = .returned _ := if_neg (not_not.mpr hs)
    rw [call, hclaim]
    exact .inr ⟨rfl, by simp [IsFinished, hs]⟩
  · have hclaim : t.claim workerId startedAt = .raised _ t := if_pos hs
    rw [call, hclaim]
    exact .inl ⟨_, rfl⟩

theorem guarded_complete (now : Time) : Guarded t (t.complete now) := by
  by_cases hs : t.status = .running
  · rw [complete_of_running hs]
    exact .inr ⟨rfl, not_isFinished_of_running hs⟩
  · exact .inl ⟨_, if_pos hs⟩

theorem guarded_fail (error : String) (now : Time) : Guarded t (t.fail error now) := by
  by_cases hs : t.status = .pending ∨ t.status = .running
  · refine .inr ⟨by rw [fail, if_pos hs]; rfl, ?_⟩
    rcases hs with hs | hs <;> simp [IsFinished, hs]
  · exact .inl ⟨_, if_neg hs⟩

/-! ## One call -/

/-- What the two other methods need: a time that does not overflow, and a finished task that the
subtraction leaves as it is. -/
def Method.Keeps (t : DownloadTask) : Method → Prop
  | .block retryAfterSeconds _ now =>
    t.status = .running → (addSeconds now retryAfterSeconds).isSome = true
  | .decreaseReceived count => t.IsFinished →
    (count = 0 ∧ 0 ≤ t.receivedFiles) ∨ (t.receivedFiles = 0 ∧ 0 ≤ count)
  | _ => True

theorem decreaseReceived_eq_iff (count : Int) : t.decreaseReceived count = t ↔
    (count = 0 ∧ 0 ≤ t.receivedFiles) ∨ (t.receivedFiles = 0 ∧ 0 ≤ count) := by
  have heq : t.decreaseReceived count = t ↔ max 0 (t.receivedFiles - count) = t.receivedFiles :=
    ⟨fun h => congrArg receivedFiles h, fun h => by rw [decreaseReceived, h]⟩
  rw [heq]
  omega

/-- A `block` changes nothing that it must not, unless its time overflows. -/
theorem block_disciplined_iff (n : Int) (reason : String) (now : Time) :
    (t.status = .running → (addSeconds now n).isSome = true) ↔
      ((t.block n reason now).isRaised = true → (t.block n reason now).object = t) ∧
        (t.IsFinished → (t.block n reason now).object = t) := by
  by_cases hs : t.status = .running
  · unfold block
    rw [whenRunning_of_running hs]
    cases hadd : addSeconds now n with
    | none =>
      have hne : { t with status := .blocked } ≠ t := fun h => by
        have := congrArg DownloadTask.status h
        rw [hs] at this
        cases this
      simp [hs, hne, Called.isRaised, Called.object]
    | some u => simp [not_isFinished_of_running hs, Called.isRaised]
  · have hguard : Guarded t (t.block n reason now) := .inl ⟨_, if_pos hs⟩
    exact ⟨fun _ => hguard.disciplined, fun _ h => absurd h hs⟩

/-- **One call.** -/
theorem Method.keeps_iff (t : DownloadTask) (m : Method) : m.Keeps t ↔
    (methods.raises t m = true → methods.after t m = t) ∧
      (t.IsFinished → methods.after t m = t) := by
  cases m with
  | claim workerId startedAt lastHeartbeat =>
    exact iff_of_true trivial (guarded_claim workerId startedAt lastHeartbeat).disciplined
  | heartbeat now =>
    have hguard : Guarded t (t.heartbeat now) := guarded_whenRunning rfl
    exact iff_of_true trivial hguard.disciplined
  | increaseReceived count =>
    have hguard : Guarded t (t.increaseReceived count) := guarded_whenRunning rfl
    exact iff_of_true trivial hguard.disciplined
  | increaseProcessed count =>
    have hguard : Guarded t (t.increaseProcessed count) := guarded_whenRunning rfl
    exact iff_of_true trivial hguard.disciplined
  | complete now => exact iff_of_true trivial (guarded_complete now).disciplined
  | fail error now => exact iff_of_true trivial (guarded_fail error now).disciplined
  | block n reason now => exact block_disciplined_iff n reason now
  | decreaseReceived count =>
    have hret : methods.raises t (.decreaseReceived count) = false := rfl
    rw [Method.Keeps, hret, ← decreaseReceived_eq_iff]
    exact ⟨fun h => ⟨nofun, h⟩, And.right⟩

/-! ## Any calls -/

/-- **Failure atomicity, and the end of a task**: of a new task, the calls keep both exactly when
no `block` of a running task overflows and no `decrease_received` of a finished one has something
to change. -/
theorem failureAtomic_frozen_iff (taskId : TaskId) (candidateId : String) (ms : List Method) :
    methods.FailureAtomic (new taskId candidateId) ms ∧
        methods.Frozen IsFinished (new taskId candidateId) ms ↔
      methods.Each (fun t m => m.Keeps t) (new taskId candidateId) ms :=
  Methods.disciplined_iff Method.keeps_iff

/-- A `block` overflows and leaves the task `BLOCKED`, and a task that has succeeded loses three of
its received names. -/
theorem drifts :
    let overflow : List Method := [.claim "w" 0 0, .block 1000000000000 "" 0]
    let late : List Method :=
      [.claim "w" 0 0, .increaseReceived 5, .complete 1, .decreaseReceived 3]
    ((methods.run (new "t" "c") overflow).status = .blocked ∧
      ¬ methods.FailureAtomic (new "t" "c") overflow) ∧
    ((methods.run (new "t" "c") late).receivedFiles = 2 ∧
      ¬ methods.Frozen IsFinished (new "t" "c") late) := by
  refine ⟨⟨by decide +kernel, fun h => ?_⟩, by decide +kernel, fun h => ?_⟩
  · have := h [.claim "w" 0 0] (.block 1000000000000 "" 0) (List.prefix_refl _) (by decide +kernel)
    revert this
    decide +kernel
  · have := h [.claim "w" 0 0, .increaseReceived 5, .complete 1] [.decreaseReceived 3]
      (List.prefix_refl _) (.inl (by decide +kernel))
    revert this
    decide +kernel

/-! ## How far the two defects go -/

theorem finished_after (h : t.IsFinished) (m : Method) :
    methods.after t m = { t with receivedFiles := (methods.after t m).receivedFiles } := by
  by_cases hm : m.Keeps t
  · rw [((Method.keeps_iff t m).mp hm).2 h]
  · cases m with
    | decreaseReceived count => rfl
    | block n reason now => exact absurd (fun hs => absurd h (not_isFinished_of_running hs)) hm
    | _ => exact absurd trivial hm

/-- Of a finished task no calls change more than the number of its received names. -/
theorem finished_run (h : t.IsFinished) (ms : List Method) :
    methods.run t ms = { t with receivedFiles := (methods.run t ms).receivedFiles } := by
  refine Methods.run_keeps
    (I := fun u : DownloadTask => u = { t with receivedFiles := u.receivedFiles })
    (fun u m hu => ?_) rfl
  have hfin : u.IsFinished := by rw [hu]; exact h
  have hafter := finished_after hfin m
  rw [hu] at hafter ⊢
  exact hafter

/-- A call that raises leaves the task, or turns a running one into a `BLOCKED` one. -/
theorem raised_after {m : Method} (h : methods.raises t m = true) : methods.after t m = t ∨
    (t.status = .running ∧ methods.after t m = { t with status := .blocked }) := by
  by_cases hm : m.Keeps t
  · exact .inl (((Method.keeps_iff t m).mp hm).1 h)
  · cases m with
    | block n reason now =>
      rw [Method.Keeps, Classical.not_imp] at hm
      cases hcall : t.block n reason now with
      | returned t' =>
        change (t.block n reason now).isRaised = true at h
        rw [hcall] at h
        cases h
      | raised e t' =>
        refine .inr ⟨hm.1, ?_⟩
        change (t.block n reason now).object = _
        rw [hcall]
        exact block_raised hm.1 hcall
    | decreaseReceived count => cases h
    | _ => exact absurd trivial hm

end DownloadTask

end FileExtractor
