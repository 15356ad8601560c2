import FileExtractor.Application.Outstanding
import FileExtractor.Infrastructure.CatalogClient
import FileExtractor.Worker.Cleanup

/-!
# What becomes of a 403 with `Retry-After`

The client gives a 403 with `Retry-After` to its caller at once (`CatalogClient.respond_blocked`).
The handler cleans its batch up and comes to `_handle_block`. `Honoured` is what the README says of
the answer: up to 60 seconds the worker waits in place; from then on the task is `BLOCKED` until the
`Retry-After` is over. `block_honoured_iff` says that the code does so exactly for more than 60
seconds that end before the last time of `datetime`.
-/

namespace FileExtractor

open Lts

/-- A 403 with `Retry-After` is not tried again. -/
theorem CatalogClient.respond_blocked {client client' : CatalogClient} {r : Int} {u : ℚ}
    {result : Option (Except Exn Answer)}
    (h : client.respond (.blocked r) u = some (client', result)) :
    result = some (.error (.blocked r)) := by
  unfold respond at h
  split at h
  · cases h; rfl
  · cases h

/-- An exception of the API ends the run at once or starts the cleanup. -/
theorem Handler.Failed.of_callsApi {now : Time} {x : Exn} {h h' : Handler}
    (ha : Failed now h x h') (hc : h.callsApi = true) :
    (∃ f, Ending now f x h' ∧ h.batchFiles = []) ∨ ∃ f, Cleaning now f x h.batchFiles h' := by
  cases ha with
  | names f x h hE => exact .inl ⟨f, hE, rfl⟩
  | batch f h hb x h' hcl =>
    refine .inr ⟨f, ?_⟩
    cases h <;> cases hb <;> exact hcl
  | storing f h hh => rcases hh with rfl | rfl <;> cases hc
  | closing f h hh => rcases hh with rfl | rfl <;> cases hc
  | unread | object | rows | unstored => cases hc

namespace Execution

/-- A 403 with `Retry-After: r` in the state `e₁`, which leads to `e₂` and, after the cleanup, to
the end `c` of the batch. -/
structure Honoured (sha256 : Bytes → Digest) (r : Int) (e₁ e₂ c : Execution) : Prop where
  waits : r ≤ 60 →
    e₂.handler.callsApi = true ∧ e₂.handler.unprocessed = e₁.handler.unprocessed
  blocks : 60 < r → (executions sha256).Leads Succeeds (fun e => e.handler.isEnded = true ∧
    (∃ s, e.stored = some s ∧ s.status = .blocked ∧ s.blockedUntil = some (c.now + r)) ∧
    ∀ file ∈ e₁.handler.batchFiles, e.store.Without e.command.taskId file) c
  neverFails : ∀ evs e s, (executions sha256).run c evs = some e → e.stored = some s →
    s.status ≠ .failed

variable {sha256 : Bytes → Digest} {e e' e₁ e₂ : Execution} {ev : Event} {c : String} {f : Frame}
  {x : Exn} {evs : List Event}

/-- An exception of the API makes the run end when the batch has been cleaned up. -/
theorem Sound.comes_to (h : Sound c e₁) (hapi : e₁.handler.callsApi = true)
    (hx : ev.reply.seen = .error x) (hst : (executions sha256).step e₁ ev = some e₂)
    (hg : (executions sha256).Guarded CleansUp e₂ evs)
    (hrun : (executions sha256).run e₂ evs = some e) (hcl : e.handler.isClosing = true) :
    Sound c e ∧ (∃ f, Handler.Ending e.now f x e.handler) ∧
      (∃ s, e.stored = some s ∧ s.status = .running) ∧
      ∀ file ∈ e₁.handler.batchFiles, e.store.Without e.command.taskId file := by
  have h₂ := h.step hst
  have hfail := h.failed hst hx
  rw [← (command_step hst).2] at hfail
  obtain ⟨fr, hfr⟩ : ∃ fr, e₁.handler.frame = some fr := by
    generalize e₁.handler = k at hapi
    cases k <;> first | exact ⟨_, rfl⟩ | cases hapi
  obtain ⟨t, ht, hs⟩ := h.stays_running hst hfr
  rcases hfail.of_callsApi hapi with ⟨f, hE, hfiles⟩ | ⟨f, hc⟩
  · cases evs with
    | nil =>
      cases hrun
      exact ⟨h₂, ⟨f, hE⟩, ⟨t, ht, hs⟩, by rw [hfiles]; nofun⟩
    | cons ev evs =>
      have := hg.1.1
      rw [Handler.ending_closing hE] at this; cases this
  · obtain ⟨hsound, hE, hstore⟩ := h₂.cleans_up hc hg hrun hcl
    have hcommand : e.command = e₂.command := command_run hrun
    refine ⟨hsound, ⟨_, hE⟩, ⟨t, ?_, hs⟩, fun file hfile => ?_⟩
    · rw [← ht, Execution.stored, Execution.stored, hstore, Store.foldl_cleanUp_tasks, hcommand]
    · rw [hstore, hcommand]
      exact Store.without_foldl_cleanUp hfile

/-- A write of the task touches nothing else. -/
theorem without_written {t : DownloadTask} {taskId : TaskId} {file : File}
    (hst : (executions sha256).step e ev = some e')
    (hc : e.handler.call e.command = some (.updateTask t)) (h : e.store.Without taskId file) :
    e'.store.Without taskId file := by
  obtain ⟨c', store, handler, -, hcall, hs, -, rfl⟩ := step_eq hst
  rw [hc] at hcall; cases hcall
  rcases Store.serve_cases hs with ⟨rfl, -⟩ | ha
  · exact h
  · cases ha; exact ⟨h.row, h.record, h.object⟩

/-- After the last write nothing more happens. -/
theorem Sound.last_write (h : Sound c e) (hk : e.handler = .storeBlocked f)
    (hrun : (executions sha256).run e evs = some e') :
    (∃ s, e'.stored = some s ∧ s.status = .running) ∨ e'.stored = some f.task := by
  cases evs with
  | nil => cases hrun; exact .inl (h.row (by rw [hk]; rfl))
  | cons ev evs =>
    obtain ⟨e₁, hst, hrun⟩ := System.run_cons_eq_some.mp hrun
    obtain ⟨hend, hcall, -⟩ := h.ends hst (.inl hk)
    obtain rfl : e₁ = e' := by
      cases evs with
      | nil => cases hrun; rfl
      | cons ev' evs =>
        obtain ⟨e₂, hst', -⟩ := System.run_cons_eq_some.mp hrun
        rw [not_ended hst'] at hend; cases hend
    rcases h.stored_step hst with hs | ⟨t, hc, hs⟩
    · rw [hs]; exact .inl (h.row (not_ended hst))
    · rw [hcall] at hc; cases hc; exact .inr hs

/-- A block that ends within the range of `datetime` is stored. -/
theorem Sound.blocks (h : Sound c e) {files : List File} (hk : e.handler = .storeBlocked f)
    (hfiles : ∀ file ∈ files, e.store.Without e.command.taskId file) :
    (executions sha256).Leads Succeeds (fun e => e.handler.isEnded = true ∧
      e.stored = some f.task ∧ ∀ file ∈ files, e.store.Without e.command.taskId file) e := by
  refine .later ?_ fun ev e' hok hst => .now ?_
  · obtain ⟨a, e', he'⟩ := exists_step sha256 (e := e) (by rw [hk]; rfl) (by rw [hk]; rfl)
    exact ⟨⟨0, .done a⟩, e', rfl, he'⟩
  · obtain ⟨hend, hcall, -⟩ := h.ends hst (.inl hk)
    refine ⟨hend, h.written hst hcall fun x hx => ?_, fun file hfile => ?_⟩
    · rw [Succeeds, hx] at hok; cases hok
    · rw [(command_step hst).1]
      exact without_written hst hcall (hfiles file hfile)

/-- A run that is to fail may do so. -/
theorem Sound.fails (h : Sound c e) (sha256 : Bytes → Digest) (hk : e.handler = .storeFailed f) :
    ∃ evs e', (executions sha256).run e evs = some e' ∧ e'.stored = some f.task := by
  obtain ⟨a, e', hst⟩ := exists_step sha256 (e := e) (by rw [hk]; rfl) (by rw [hk]; rfl)
  obtain ⟨-, hcall, -⟩ := h.ends hst (.inr (.inr hk))
  exact ⟨[_], e', by rw [System.run_cons, hst]; rfl, h.written hst hcall nofun⟩

/-- **A 403 with `Retry-After: r`** at any call of the API in any run on a `RUNNING` row. The
cleanup comes to its end, and the code does what it should exactly if `r` is more than 60 and the
block ends within the range of `datetime`. -/
theorem block_honoured_iff (sha256 : Bytes → Digest) (command : ProcessFilesCommand) (now : Time)
    (store : Store) (s : DownloadTask) (hs : store.tasks.getById command.taskId = some s)
    (hr : s.status = .running) (evs : List Event) (e₁ e₂ : Execution) (ev : Event)
    (hrun : (executions sha256).run (start command now store) evs = some e₁)
    (hapi : e₁.handler.callsApi = true) (client client' : CatalogClient) (r : Int) (u : ℚ)
    (h403 : client.respond (.blocked r) u = some (client', some ev.reply.seen))
    (hst : (executions sha256).step e₁ ev = some e₂) :
    (executions sha256).Leads CleansUp (fun c => c.handler.isClosing = true) e₂ ∧
    ∀ evs' c, (executions sha256).Guarded CleansUp e₂ evs' →
      (executions sha256).run e₂ evs' = some c → c.handler.isClosing = true →
      (Honoured sha256 r e₁ e₂ c ↔ 60 < r ∧ (addSeconds c.now r).isSome = true) := by
  have hx : ev.reply.seen = .error (.blocked r) :=
    Option.some.inj (CatalogClient.respond_blocked h403)
  have h₁ := sound_run hs hr hrun
  refine ⟨?_, fun evs' c hg hrun' hcl => ?_⟩
  · have hfail := h₁.failed hst hx
    rw [← (command_step hst).2] at hfail
    rcases hfail.of_callsApi hapi with ⟨f, hE, -⟩ | ⟨f, hc⟩
    · exact .now (Handler.ending_closing hE)
    · exact (h₁.step hst).leads_to_closing hc
  · obtain ⟨h, ⟨f, hE⟩, ⟨t, ht, hrunning⟩, hfiles⟩ := h₁.comes_to hapi hx hst hg hrun' hcl
    generalize hk : c.handler = k at hE
    cases hE with
    | failed e he =>
      have hle := he r rfl
      refine ⟨fun hh => ?_, fun hh => absurd hh.1 (Int.not_lt.mpr hle)⟩
      obtain ⟨evs₁, e', hrun₁, hs'⟩ := h.fails sha256 hk
      exact absurd rfl (hh.neverFails evs₁ e' _ hrun₁ hs')
    | blocked r u hlt hu =>
      refine ⟨fun _ => ⟨hlt, by rw [hu]; rfl⟩, fun _ =>
        ⟨fun hle => absurd hlt (Int.not_lt.mpr hle), fun _ => ?_, fun evs₁ e' t' hrun₁ ht' => ?_⟩⟩
      · refine (h.blocks hk hfiles).mono fun e he => ⟨he.1, ⟨_, he.2.1, rfl, ?_⟩, he.2.2⟩
        exact congrArg some (addSeconds_eq_some hu)
      · rcases h.last_write hk hrun₁ with ⟨t₁, ht₁, hrun₂⟩ | ht₁
        · rw [ht'] at ht₁; cases ht₁; rw [hrun₂]; decide
        · rw [ht'] at ht₁; cases ht₁; nofun
    | overflow r e hlt hu =>
      refine ⟨fun hh => ?_, fun hh => by rw [hu] at hh; cases hh.2⟩
      cases hh.blocks hlt with
      | now hp =>
        obtain ⟨-, ⟨t', ht', hblocked, -⟩, -⟩ := hp
        rw [ht] at ht'; cases ht'
        rw [hrunning] at hblocked; cases hblocked
      | later hgo =>
        obtain ⟨ev', e', -, hst'⟩ := hgo
        have := not_ended hst'
        rw [hk] at this; cases this

/-- The client in its first request. -/
def requesting : CatalogClient :=
  { CatalogClient.new CatalogClient.defaultRetry with phase := .request }

/-- The first `get_file_names` is blocked for 100 seconds. -/
theorem long_block_honoured : ∃ e₁ e₂,
    (executions fun _ => 0).run (start ⟨"t", none⟩ 0 claimedStore) [taskRead] = some e₁ ∧
    (executions fun _ => 0).step e₁ ⟨1, .refused (.blocked 100)⟩ = some e₂ ∧
    Honoured (fun _ => 0) 100 e₁ e₂ e₂ := by
  obtain ⟨e₁, hrun, hp⟩ := (Option.any_eq_true ..).mp
    (by decide +kernel : ((executions fun _ => 0).run (start ⟨"t", none⟩ 0 claimedStore)
      [taskRead]).any (fun e₁ => e₁.handler.callsApi &&
        ((executions fun _ => 0).step e₁ ⟨1, .refused (.blocked 100)⟩).any fun e₂ =>
          e₂.handler.isClosing && (addSeconds e₂.now 100).isSome) = true)
  rw [Bool.and_eq_true, Option.any_eq_true] at hp
  obtain ⟨hapi, e₂, hst, hp⟩ := hp
  rw [Bool.and_eq_true] at hp
  have hiff := (block_honoured_iff (fun _ => 0) ⟨"t", none⟩ 0 claimedStore _ rfl rfl [taskRead] e₁
    e₂ ⟨1, .refused (.blocked 100)⟩ hrun hapi requesting _ 100 0 rfl hst).2 [] e₂ trivial rfl hp.1
  exact ⟨e₁, e₂, hrun, hst, hiff.mpr ⟨by decide, hp.2⟩⟩

/-- A block of 30 seconds fails the task. -/
theorem short_block_fails : ¬ ∀ (command : ProcessFilesCommand) (now : Time) (store : Store)
    (s : DownloadTask), store.tasks.getById command.taskId = some s → s.status = .running →
    ∀ (evs : List Event) (e₁ e₂ : Execution) (ev : Event),
      (executions fun _ => 0).run (start command now store) evs = some e₁ →
      e₁.handler.callsApi = true →
      ∀ (client client' : CatalogClient) (r : Int) (u : ℚ), 0 ≤ r →
      client.respond (.blocked r) u = some (client', some ev.reply.seen) →
      (executions fun _ => 0).step e₁ ev = some e₂ → ∀ evs' c,
      (executions fun _ => 0).Guarded CleansUp e₂ evs' →
      (executions fun _ => 0).run e₂ evs' = some c → c.handler.isClosing = true →
      Honoured (fun _ => 0) r e₁ e₂ c := by
  intro hclaim
  obtain ⟨e₁, hrun, hp⟩ := (Option.any_eq_true ..).mp
    (by decide +kernel : ((executions fun _ => 0).run (start ⟨"t", none⟩ 0 claimedStore)
      [taskRead]).any (fun e₁ => e₁.handler.callsApi &&
        ((executions fun _ => 0).step e₁ ⟨1, .refused (.blocked 30)⟩).any fun e₂ =>
          e₂.handler.isClosing && ((executions fun _ => 0).run e₂ [⟨1, .done .done⟩]).any fun e =>
            e.stored.any fun s => s.status = .failed) = true)
  rw [Bool.and_eq_true, Option.any_eq_true] at hp
  obtain ⟨hapi, e₂, hst, hp⟩ := hp
  rw [Bool.and_eq_true, Option.any_eq_true] at hp
  obtain ⟨hcl, e, hrun', hp⟩ := hp
  obtain ⟨s, hs, hfailed⟩ := (Option.any_eq_true ..).mp hp
  exact (hclaim ⟨"t", none⟩ 0 claimedStore _ rfl rfl [taskRead] e₁ e₂ _ hrun hapi requesting _ 30 0
    (by decide) rfl hst [] e₂ trivial rfl hcl).neverFails _ e s hrun' hs (of_decide_eq_true hfailed)

end Execution

end FileExtractor
