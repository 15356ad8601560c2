import FileExtractor.Worker.UnitOfWork

/-!
# What a reply of the database stands for

A run of `execute` with its session is a run of the model, whose calls of the database have a
`Reply`: an exception that the handler sees is one without an effect or one of a commit whose
acknowledgement is lost, and an answer is one of a block that has taken effect (`Request.served`).
The session has no transaction between two calls, except that the existence check may have left one
aborted, which the next block rolls back.
-/

namespace FileExtractor

open Rel Lts Transaction

variable {sha256 : Bytes → Digest} {E : Errors Exn}

/-- The effect of a block on the tables is that of its call on the store. -/
theorem Call.apply_request {c : Call} {ops : List (Op Tables)} {s : Store} {t : Tables}
    (taskId : TaskId) (hc : c.request = some (.block ops true))
    (ht : all (ops.map Op.statement) s.tables = some t) :
    ∃ s', s.apply taskId c = some s' ∧ s'.tables = t ∧ s'.bucket = s.bucket := by
  cases c with
  | updateTask task => cases hc; cases ht; exact ⟨_, rfl, rfl, rfl⟩
  | deleteFile tid file => cases hc; cases ht; exact ⟨_, rfl, rfl, rfl⟩
  | addFile tid file fileHash =>
    cases hc
    simp only [List.map_cons, List.map_nil, Op.statement, all, List.foldlM_cons, List.foldlM_nil,
      Option.bind_eq_bind, Option.bind_eq_some_iff, Option.map_eq_some_iff, Option.pure_def,
      Option.some.injEq] at ht
    obtain ⟨t₁, ⟨files, hfiles, rfl⟩, t₂, ⟨downloaded, hdownloaded, rfl⟩, rfl⟩ := ht
    have happly : s.apply taskId (.addFile tid file fileHash) = some { s with
        files := files, downloaded := downloaded
        owner := Function.update s.owner file.id (some tid) } := by
      have hf : s.files.add file = some files := hfiles
      have hd : s.downloaded.record tid file.filename fileHash = some downloaded := hdownloaded
      simp [Store.apply, hf, hd]
    exact ⟨_, happly, rfl, rfl⟩
  | _ => cases hc

/-- The tables answer a call that reads as the session does. -/
theorem Call.serve_read {c : Call} (s : Store) (taskId : TaskId)
    (hc : c.request = some .bare ∨ c.request = some (.block [readRow] false)) :
    s.serve taskId c (.done (c.answer s.tables)) = some s := by
  cases c with
  | getById | downloadedFileExists =>
    simp [Store.serve, Store.permits, Store.apply, answer, Store.tables]
  | _ => simp [request] at hc

namespace SessionRun

variable {r r' : SessionRun} {ev : SessionEvent}

/-- The run of the model has the tables that are committed, and no transaction is open. -/
structure Shows (r : SessionRun) (e : Execution) : Prop where
  command : e.command = r.command
  now : e.now = r.now
  handler : e.handler = r.handler
  tables : e.store.tables = r.session.committed
  bucket : e.store.bucket = r.bucket
  idle : r.session.Idle

/-- The requests have come to a reply of the model. -/
structure Served (store : Store) (taskId : TaskId) (c : Call) (raised : Option Exn)
    (s' : Session Tables) (reply : Reply) (store' : Store) : Prop where
  serve : store.serve taskId c reply = some store'
  seen : reply.seen = c.seen (raised, s')
  tables : store'.tables = s'.committed
  bucket : store'.bucket = store.bucket
  idle : s'.Idle

variable {store : Store} {c : Call} {raised : Option Exn} {s s' : Session Tables}

theorem served_read (taskId : TaskId)
    (hc : c.request = some .bare ∨ c.request = some (.block [readRow] false))
    (hstore : store.tables = s.committed) (hs : s'.Idle ∧ s'.committed = s.committed) :
    ∃ reply store', Served store taskId c raised s' reply store' := by
  obtain ⟨hidle, hcom⟩ := hs
  cases raised with
  | some e => exact ⟨.refused e, store, rfl, rfl, hstore.trans hcom.symm, rfl, hidle⟩
  | none =>
    refine ⟨.done (c.answer store.tables), store, Call.serve_read store taskId hc, ?_,
      hstore.trans hcom.symm, rfl, hidle⟩
    rw [Call.seen, hidle.working, hcom, hstore]; rfl

theorem served_block (taskId : TaskId) {ops : List (Op Tables)}
    (hc : c.request = some (.block ops true)) (hstore : store.tables = s.committed)
    (hs : s'.Clean ∧ ((raised.isSome ∧ s'.committed = s.committed) ∨
      all (ops.map Op.statement) s.committed = some s'.committed)) :
    ∃ reply store', Served store taskId c raised s' reply store' := by
  obtain ⟨hclean, ⟨hraised, hcom⟩ | hall⟩ := hs
  · obtain ⟨e, rfl⟩ := Option.isSome_iff_exists.mp hraised
    exact ⟨.refused e, store, rfl, rfl, hstore.trans hcom.symm, rfl, hclean.toIdle⟩
  · obtain ⟨store', happly, htables, hbucket⟩ := Call.apply_request taskId hc (hstore ▸ hall)
    cases raised with
    | some e => exact ⟨.lost e, store', happly, rfl, htables, hbucket, hclean.toIdle⟩
    | none =>
      have hanswer : c.answer s'.working = .done := by
        cases c <;> first | rfl | simp [Call.request] at hc
      have hpermits : store.permits c .done = true := by cases c <;> rfl
      refine ⟨.done .done, store', ?_, by rw [Call.seen, hanswer]; rfl, htables, hbucket,
        hclean.toIdle⟩
      rw [Store.serve, if_pos hpermits, happly]

/-- **The requests of a call** come to a reply of the model. -/
theorem served {request : Request} (hc : c.request = some request) (hs : s.Idle)
    (hstore : store.tables = s.committed) (taskId : TaskId) {faults : List (Option Exn)}
    {fault : Option Exn} {fate : Transaction.Fate Exn}
    (hask : ask E request faults fault fate s = (raised, s')) :
    ∃ reply store', Served store taskId c raised s' reply store' := by
  cases request with
  | bare => exact served_read taskId (.inl hc) hstore (Session.read_cases hs hask)
  | block ops commits =>
    cases commits with
    | true => exact served_block taskId hc hstore (Session.block_cases hs hask)
    | false =>
      obtain rfl : ops = [readRow] := by
        cases c <;> simp_all [Call.request]
      exact served_read taskId (.inr hc) hstore (Session.block_read_cases hs hask)

/-- A call of the API, the storage or the archive leaves the tables, and its effect does not depend
on them. -/
theorem served_remote {store₁ store₂ : Store} {taskId : TaskId} {reply : Reply}
    (hc : c.request = none) (hb : store.bucket = store₂.bucket)
    (h : store₂.serve taskId c reply = some store₁) :
    ∃ store', store.serve taskId c reply = some store' ∧ store'.tables = store.tables ∧
      store'.bucket = store₁.bucket := by
  have heffect : ∀ {s₁ : Store}, store₂.apply taskId c = some s₁ →
      ∃ s₂, store.apply taskId c = some s₂ ∧ s₂.tables = store.tables ∧ s₂.bucket = s₁.bucket := by
    intro s₁ h
    cases c <;> simp only [Call.request, reduceCtorEq] at hc <;> cases h <;>
      exact ⟨_, rfl, rfl, by simp [hb]⟩
  cases reply with
  | refused e => cases h; exact ⟨store, rfl, rfl, hb⟩
  | lost e => exact heffect h
  | done a =>
    have hpermits : store.permits c a = true := by
      cases c <;> first | rfl | simp [Call.request] at hc
    rw [Store.serve] at h
    split at h
    · rw [Store.serve, if_pos hpermits]; exact heffect h
    · cases h

theorem step_of {e : Execution} {ev : Event} {h : Handler} (ht : 0 ≤ ev.elapsed)
    (hc : e.handler.call e.command = some c)
    (hs : e.store.serve e.command.taskId c ev.reply = some store)
    (hr : e.handler.resume sha256 (e.now + ev.elapsed) ev.reply.seen = some h) :
    (Execution.executions sha256).step e ev = some { e with
      now := e.now + ev.elapsed, store := store, handler := h
      calls := e.calls ++ [(c, ev.reply)] } := by
  simp [Execution.executions, Execution.step, ht, hc, hs, hr]

/-- **Every event of a run with a session** is one of the model. -/
theorem Shows.step {e : Execution} (h : r.Shows e)
    (hst : (sessionRuns sha256 E).step r ev = some r') :
    ∃ ev' e', ev'.elapsed = ev.elapsed ∧ (Execution.executions sha256).step e ev' = some e' ∧
      r'.Shows e' := by
  obtain ⟨hcommand, hnow, hhandler, htables, hbucket, hidle⟩ := h
  cases ev with
  | remote elapsed reply =>
    obtain ⟨c, store₁, handler, ht, hc, hreq, hs, hr, rfl⟩ := step_remote hst
    obtain ⟨store', hserve, htab, hbuck⟩ := served_remote hreq hbucket hs
    have hcall : e.handler.call e.command = some c := by rw [hhandler, hcommand, hc]
    have hserve' : e.store.serve e.command.taskId c reply = some store' := by
      rw [hcommand, hserve]
    have hresume : e.handler.resume sha256 (e.now + elapsed) reply.seen = some handler := by
      rw [hhandler, hnow, hr]
    exact ⟨⟨elapsed, reply⟩, _, rfl, step_of ht hcall hserve' hresume,
      ⟨hcommand, congrArg (· + elapsed) hnow, rfl, htab.trans htables, hbuck, hidle⟩⟩
  | database elapsed faults fault fate =>
    obtain ⟨c, request, ⟨raised, session⟩, handler, ht, hc, hreq, hask, hr, rfl⟩ :=
      step_database hst
    obtain ⟨reply, store', hserved⟩ := served hreq hidle htables r.command.taskId hask
    have hcall : e.handler.call e.command = some c := by rw [hhandler, hcommand, hc]
    have hserve : e.store.serve e.command.taskId c reply = some store' := by
      rw [hcommand, hserved.serve]
    have hresume : e.handler.resume sha256 (e.now + elapsed) reply.seen = some handler := by
      rw [hhandler, hnow, hserved.seen]; exact hr
    exact ⟨⟨elapsed, reply⟩, _, rfl, step_of ht hcall hserve hresume,
      ⟨hcommand, congrArg (· + elapsed) hnow, rfl, hserved.tables,
        hserved.bucket.trans hbucket, hserved.idle⟩⟩

/-- **And so is a run of them.** -/
theorem Shows.run {e : Execution} {evs : List SessionEvent} (h : r.Shows e)
    (hrun : (sessionRuns sha256 E).run r evs = some r') :
    ∃ evs' e', evs'.map Event.elapsed = evs.map SessionEvent.elapsed ∧
      (Execution.executions sha256).run e evs' = some e' ∧ r'.Shows e' := by
  induction evs generalizing r e with
  | nil => cases hrun; exact ⟨[], e, rfl, rfl, h⟩
  | cons ev evs ih =>
    obtain ⟨r₁, hst, hrun⟩ := System.run_cons_eq_some.mp hrun
    obtain ⟨ev', e₁, hev, hst', h₁⟩ := h.step hst
    obtain ⟨evs', e', hevs, hrun', h'⟩ := ih h₁ hrun
    refine ⟨ev' :: evs', e', ?_, ?_, h'⟩
    · rw [List.map_cons, List.map_cons, hev, hevs]
    · rw [System.run_cons, hst']; exact hrun'

theorem shows_start (command : ProcessFilesCommand) (now : Time) (store : Store) :
    (start command now store).Shows (.start command now store) :=
  ⟨rfl, rfl, rfl, rfl, rfl, ⟨rfl, rfl⟩⟩

end SessionRun

/-- **The unit of work does what a `Reply` says.** Every run of `execute` with its session,
whichever requests of the database fail and however its commits end, is a run of the model with as
many events at the same times: the handler is in the same state, the committed tables are those of
the model, and between two calls no change is left uncommitted. -/
theorem unit_of_work_refines (sha256 : Bytes → Digest) (E : Errors Exn)
    (command : ProcessFilesCommand) (now : Time) (store : Store) (evs : List SessionEvent)
    (r : SessionRun)
    (hrun : (SessionRun.sessionRuns sha256 E).run (.start command now store) evs = some r) :
    ∃ evs' e, evs'.map Event.elapsed = evs.map SessionEvent.elapsed ∧
      (Execution.executions sha256).run (.start command now store) evs' = some e ∧
      r.Shows e :=
  (SessionRun.shows_start command now store).run hrun

/-- The exceptions of a library. -/
def plainErrors : Errors Exn := ⟨.other "aborted", .other "violated"⟩

/-- The task is read, a name arrives, and the commit of its count takes effect but the
acknowledgement is lost. -/
def countLost : List SessionEvent :=
  [.database 1 [] none .done, .remote 1 (.done (.names ["x"])),
    .database 1 [none] none (.lost (.other "timeout"))]

/-- The count is stored, and the task is about to fail. -/
theorem lost_count_refines : ∃ r,
    (SessionRun.sessionRuns (fun _ => 0) plainErrors).run
      (.start ⟨"t", none⟩ 0 Execution.claimedStore) countLost = some r ∧
    (r.session.committed.tasks.getById "t").any (fun t => t.receivedFiles = 1) = true ∧
    ∃ evs' e, evs'.map Event.elapsed = countLost.map SessionEvent.elapsed ∧
      (Execution.executions fun _ => 0).run (.start ⟨"t", none⟩ 0 Execution.claimedStore) evs' =
        some e ∧ r.Shows e := by
  obtain ⟨r, hrun, hp⟩ := (Option.any_eq_true ..).mp
    (by decide +kernel : ((SessionRun.sessionRuns (fun _ => 0) plainErrors).run
      (.start ⟨"t", none⟩ 0 Execution.claimedStore) countLost).any (fun r =>
        (r.session.committed.tasks.getById "t").any fun t => t.receivedFiles = 1) = true)
  exact ⟨r, hrun, hp, unit_of_work_refines _ plainErrors ⟨"t", none⟩ 0 Execution.claimedStore
    countLost r hrun⟩

end FileExtractor
