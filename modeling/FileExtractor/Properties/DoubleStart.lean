import FileExtractor.Lib.Inevitable
import FileExtractor.Properties.Polling

/-!
# Several starts

The button stays until the first start is answered, so it can be clicked again before. Each answer
starts an interval and sets `pollInterval`, whose old value an effect clears; and clearing sets
`null`, which is another change, whose effect clears the new interval, too. So the starts that are
answered turn the polling on and off by turns (`polls_iff_odd`).
-/

namespace FileExtractor

open Lts

namespace DownloadPage

/-- A start is answered. -/
def Event.isStarted : Event → Bool
  | .started _ _ _ => true
  | _ => false

variable {p p' : DownloadPage} {e : Event}

/-- All closures were made by renders without an interval, and there is at most one interval: that
of the last start, if an odd number of starts, `n`, has been answered. -/
structure Turned (p : DownloadPage) (n : Nat) : Prop where
  quiet : Quiet p
  starting : ∀ c ∈ p.starting, c = none
  requests : ∀ r ∈ p.requests, r.pollInterval = none
  handles : ∀ handle, p.pollInterval = some handle → handle < p.nextHandle
  odd : n % 2 = 1 → ∃ handle taskId, p.intervals = [(handle, { taskId, pollInterval := none })] ∧
    p.pollInterval = some handle ∧ p.state.taskId = some taskId
  even : n % 2 = 0 → p.intervals = [] ∧ p.pollInterval = none

theorem turned_initial : Turned initial 0 where
  quiet _ := ⟨rfl, rfl, rfl⟩
  starting _ h := by cases h
  requests _ h := by cases h
  handles _ h := by cases h
  odd h := by cases h
  even _ := ⟨rfl, rfl⟩

/-- The callbacks are those of closures without an interval. -/
theorem Turned.polls {n : Nat} (h : Turned p n) {handle : Handle} {poll : Poll}
    (hi : (handle, poll) ∈ p.intervals) : poll.pollInterval = none := by
  rcases Nat.mod_two_eq_zero_or_one n with hn | hn
  · rw [(h.even hn).1] at hi; cases hi
  · obtain ⟨handle', taskId, hint, -⟩ := h.odd hn
    rw [hint] at hi
    cases List.mem_singleton.mp hi; rfl

/-- What a callback without an interval to clear leaves. -/
theorem polled_page {poll : Poll} (h : poll.pollInterval = none) (task : TaskStatusResponse)
    (p : DownloadPage) : p.polled poll task = { p with state := (p.polled poll task).state } ∧
      (p.polled poll task).state.taskId = p.state.taskId := by
  obtain ⟨taskId, pollInterval⟩ := poll
  cases h
  unfold polled
  dsimp only
  split <;> exact ⟨rfl, rfl⟩

/-- **A start that is answered** turns the polling on if it is off, and off if it is on. -/
theorem Turned.started {n : Nat} (h : Turned p n) (taskId : TaskId) (now : Time) (k : Nat) :
    Turned ({ p with starting := p.starting.eraseIdx k }.started none taskId now) (n + 1) := by
  have hstarting : ∀ c ∈ p.starting.eraseIdx k, c = none :=
    fun c hc => h.starting c (List.mem_of_mem_eraseIdx hc)
  rcases Nat.mod_two_eq_zero_or_one n with hn | hn
  · obtain ⟨hint, hpoll⟩ := h.even hn
    simp only [DownloadPage.started, setPollInterval, hpoll, reduceCtorEq, if_false, hint,
      List.nil_append]
    exact ⟨fun hidle => (by cases hidle), hstarting, h.requests,
      fun handle he => (by cases he; exact Nat.lt_succ_self _),
      fun _ => ⟨p.nextHandle, taskId, rfl, rfl, rfl⟩, fun he => by omega⟩
  · obtain ⟨handle, old, hint, hpoll, -⟩ := h.odd hn
    have hne : handle ≠ p.nextHandle := Nat.ne_of_lt (h.handles handle hpoll)
    simp only [DownloadPage.started, setPollInterval, hpoll, Option.some.injEq, if_neg hne]
    refine ⟨fun hidle => (by cases hidle), hstarting, h.requests, fun _ he => (by cases he),
      fun ho => by omega, fun _ => ⟨?_, rfl⟩⟩
    simp [clearInterval, hint]

theorem Turned.step {n : Nat} (h : Turned p n) (hst : system.step p e = some p') :
    Turned p' (n + if e.isStarted then 1 else 0) := by
  have hquiet : Quiet p' := h.quiet.step (.of_step hst)
  cases Step.of_step hst with
  | click hidle =>
    have hnone : p.pollInterval = none := (h.quiet hidle).1
    rw [hnone] at hquiet ⊢
    refine ⟨hquiet, fun c hc => ?_, h.requests, h.handles, h.odd, h.even⟩
    rcases List.mem_append.mp hc with hc | hc
    · exact h.starting c hc
    · exact List.mem_singleton.mp hc
  | started taskId now hc =>
    obtain rfl := h.starting _ (List.mem_of_getElem? hc)
    exact h.started taskId now _
  | startFailed message hc =>
    exact ⟨hquiet, fun c hc' => h.starting c (List.mem_of_mem_eraseIdx hc'), h.requests, h.handles,
      h.odd, h.even⟩
  | tick hi hid =>
    refine ⟨hquiet, h.starting, fun r hr => ?_, h.handles, h.odd, h.even⟩
    rcases List.mem_append.mp hr with hr | hr
    · exact h.requests r hr
    · rw [List.mem_singleton.mp hr]; exact h.polls hi
  | tickEmpty hi hid => exact h
  | @answered k poll task hr =>
    have hnone : poll.pollInterval = none := h.requests poll (List.mem_of_getElem? hr)
    obtain ⟨hpage, htask⟩ := polled_page hnone (taskToResponse task)
      { p with requests := p.requests.eraseIdx k }
    refine ⟨hquiet, ?_, ?_, ?_, fun hn => ?_, fun hn => ?_⟩
    · rw [hpage]; exact h.starting
    · rw [hpage]; exact fun r hr' => h.requests r (List.mem_of_mem_eraseIdx hr')
    · rw [hpage]; exact h.handles
    · obtain ⟨handle, taskId, hint, hpoll, hid⟩ := h.odd hn
      exact ⟨handle, taskId, by rw [hpage]; exact hint, by rw [hpage]; exact hpoll,
        htask.trans hid⟩
    · rw [hpage]; exact h.even hn
  | pollFailed hr =>
    exact ⟨hquiet, h.starting, fun r hr' => h.requests r (List.mem_of_mem_eraseIdx hr'), h.handles,
      h.odd, h.even⟩

/-! ## For good -/

/-- No start waits for its answer, the button is gone, and no interval is left. -/
structure Silent (issued : Nat) (p : DownloadPage) : Prop where
  busy : p.state.status ≠ .idle
  starting : p.starting = []
  intervals : p.intervals = []
  requests : ∀ r ∈ p.requests, r.pollInterval = none
  issued : p.issued = issued

theorem Silent.step {n : Nat} (h : Silent n p) (hst : system.step p e = some p') :
    Silent n p' := by
  obtain ⟨hbusy, hstarting, hint, hreq, hissued⟩ := h
  cases Step.of_step hst with
  | click hidle => exact absurd hidle hbusy
  | started taskId now hc => rw [hstarting] at hc; cases hc
  | startFailed message hc => rw [hstarting] at hc; cases hc
  | tick hi hid => rw [hint] at hi; cases hi
  | tickEmpty hi hid => rw [hint] at hi; cases hi
  | @answered k poll task hr =>
    have hnone : poll.pollInterval = none := hreq poll (List.mem_of_getElem? hr)
    obtain ⟨hpage, -⟩ := polled_page hnone (taskToResponse task)
      { p with requests := p.requests.eraseIdx k }
    refine ⟨by rw [status_polled]; exact statusOf_ne_idle _, ?_, ?_, ?_, ?_⟩
    all_goals rw [hpage]
    · exact hstarting
    · exact hint
    · exact fun r hr' => hreq r (List.mem_of_mem_eraseIdx hr')
    · exact hissued
  | pollFailed hr =>
    exact ⟨hbusy, hstarting, hint, fun r hr' => hreq r (List.mem_of_mem_eraseIdx hr'), hissued⟩

/-- **The page polls after an odd number of starts.** In every run of the page: if the number of
starts that have been answered is odd there is one interval, for the task of the last one, and if it
is even there is none. So when it is even, a start has been answered, which takes the button away,
and no start waits for its answer, no status request is ever sent again. -/
theorem polls_iff_odd (es : List Event) (p : DownloadPage) (hrun : system.run initial es = some p) :
    p.intervals.map (fun i => some i.2.taskId) =
      (if es.countP Event.isStarted % 2 = 1 then [p.state.taskId] else []) ∧
    (es.countP Event.isStarted % 2 = 0 → p.state.status ≠ .idle → p.starting = [] →
      ∀ es' p', system.run p es' = some p' → p'.issued = p.issued) := by
  have h : Turned p (es.countP Event.isStarted) := by
    have := System.Reach.run_countP (S := system) (p := Event.isStarted) (R := Turned)
      (fun p n e p' _ h _ hst => h.step hst) (.init rfl) turned_initial System.guarded_free hrun
    rwa [Nat.zero_add] at this
  refine ⟨?_, fun hn hbusy hstarting es' p' hrun' => ?_⟩
  · split
    · next hn =>
      obtain ⟨handle, taskId, hint, -, hid⟩ := h.odd hn
      rw [hint, hid]; rfl
    · next hn =>
      rw [(h.even (by omega)).1]; rfl
  · have hs : Silent p.issued p := ⟨hbusy, hstarting, (h.even hn).1, h.requests, rfl⟩
    exact (System.run_keeps (I := Silent p.issued) (fun p e p' h _ hst => h.step hst) hs
      System.guarded_free hrun').issued

/-- A second click before the first answer: the page shows a running task and never asks for it. -/
theorem double_click_silent : ∃ p,
    system.run initial [.click, .click, .started 0 "t" 0, .started 0 "u" 1] = some p ∧
    p.state.status = .running ∧ p.intervals = [] ∧
    ∀ es' p', system.run p es' = some p' → p'.issued = p.issued := by
  have hrun : system.run initial [.click, .click, .started 0 "t" 0, .started 0 "u" 1] = some _ :=
    rfl
  exact ⟨_, hrun, rfl, rfl, (polls_iff_odd _ _ hrun).2 rfl (by decide) rfl⟩

end DownloadPage

end FileExtractor
