import FileExtractor.Properties.Batching
import FileExtractor.Properties.Recovery

/-!
# A run that nothing interrupts delivers everything

After any crashes, blocks and reclaims (`Recovers`) a handler has the task, and from now on its
calls succeed and the API keeps to its contract: it gives names of `U` that are not marked, as many
and as often as it likes, and none only when all are marked. Then the run comes to its end, and
every name of `U` is marked, recorded and stored (`delivered_after_recovery`).

The API may give the same names again and again while they are pending, so the names that the run
has got are no measure. But a batch that follows an answer with names has one that is not marked
(`idle`), and its mark leaves fewer unmarked names.
-/

namespace FileExtractor

open Rel Lts World

namespace Handler

/-- The names of the batch that is handled, or comes next. -/
def upcoming : Handler → List String
  | storeReceived f => f.pending.take 3
  | download f | extract f _ | storeHeartbeat f _ _ | checkExists f _ _ | upload f _ _ => f.batch
  | record f _ _ _ | mark f => f.batch
  | _ => []

variable {sha256 : Bytes → Digest} {now : Time} {f : Frame} {h h' : Handler} {a : Answer}

/-- A batch stays the same up to its mark. -/
theorem Answered.upcoming (ha : Answered sha256 now h a h') (hr : h.recovering = false) :
    h'.upcoming = h.upcoming ∨ h.upcoming = [] ∨ ∃ f, h = mark f := by
  cases ha with
  | marked f => exact .inr (.inr ⟨f, rfl⟩)
  | exhausted | beating | entered | beaten | skipped | missed => exact .inl rfl
  | downloaded | uploaded | recorded | received => exact .inl rfl
  | objectDeleted | rowsDeleted => cases hr
  | closed f h hh => rcases hh with rfl | rfl | rfl <;> exact .inr (.inl rfl)
  | _ => exact .inr (.inl rfl)

/-- The names are asked for when fewer than three are pending. -/
theorem Answered.at_names (ha : Answered sha256 now h a (names f)) : f.pending.length < 3 := by
  generalize hk : names f = k at ha
  cases ha with
  | started t => cases hk; exact Nat.zero_lt_succ 2
  | asking f hp => cases hk; exact hp
  | rowsDeleted f e file todo h hc =>
    subst hk
    cases hc with
    | finished h hE => cases hE
  | _ => cases hk

/-- An answer with names: the next batch has the first of them. -/
theorem Answered.of_named {fileNames : List String}
    (ha : Answered sha256 now (names f) (.names fileNames) h') (hn : fileNames ≠ [])
    (hp : f.pending.length < 3) : ∃ n ∈ fileNames, n ∈ h'.upcoming := by
  cases ha with
  | named f fileNames hne =>
    obtain ⟨n, fileNames, rfl⟩ := List.exists_cons_of_ne_nil hn
    refine ⟨n, List.mem_cons_self, ?_⟩
    obtain ⟨k, hk⟩ : ∃ k, 3 - f.pending.length = k + 1 := ⟨2 - f.pending.length, by omega⟩
    show n ∈ (f.pending ++ n :: fileNames).take 3
    rw [List.take_append, hk]
    exact List.mem_append_right _ List.mem_cons_self
  | leftover => exact absurd rfl hn
  | completed => exact absurd rfl hn

/-- The names of `unprocessed` were there before, or are those of the answer. -/
theorem Answered.mem_unprocessed (ha : Answered sha256 now h a h') (hr : h.recovering = false)
    {n : String} (hn : n ∈ h'.unprocessed) : n ∈ h.unprocessed ∨ n ∈ a.fileNames := by
  rw [← List.mem_append, ha.unprocessed hr]
  exact List.mem_append_right _ hn

end Handler

namespace Execution

variable {U : Finset String} {content : String → Bytes} {taskId : TaskId}
  {sha256 : Bytes → Digest} {e e' : Execution} {ev : Event} {s : DownloadTask}
  {answers : Nat → List String}

/-- A call succeeds, as the API has promised, and the UUID of a new file is the id of no other. -/
def Offered (U : Finset String) (content : String → Bytes) (e : Execution) (ev : Event) : Prop :=
  ev.reply.failed = false ∧ Contract U content e.command.taskId e.store e.handler ev.reply ∧
  ∀ f extracted rest fileId, e.handler = .upload f extracted rest →
    ev.reply = .done (.stored fileId) → e.store.files.get? fileId = none

/-- The names that are still to be marked. -/
def unmarked (U : Finset String) (e : Execution) : Finset String :=
  U.filter fun n => (e.command.taskId, n) ∉ e.store.marked

/-- The next mark takes none of them away. -/
def idle (U : Finset String) (e : Execution) : Nat :=
  if ∃ n ∈ e.handler.upcoming, n ∈ e.unmarked U then 0 else 1

/-- The run, in a world of `Recovers`. -/
structure Delivers (U : Finset String) (content : String → Bytes) (sha256 : Bytes → Digest)
    (pid : Pid) (k : Worker) (s : DownloadTask) (e : Execution) : Prop where
  drains : ∃ answers, Drains answers s e
  few : ∀ f, e.handler = .names f → f.pending.length < 3
  names : ∀ n ∈ e.handler.unprocessed, n ∈ U
  world : ∃ w, (system sha256).Reach (Recovers U content e.command.taskId) w ∧ Shows w pid e k

/-! ## What every call keeps -/

/-- A run may be seen as one with the next answer `next`. -/
theorem Drains.next (h : Drains answers s e) (next : List String) :
    ∃ answers', Drains answers' s e ∧ answers' (FileExtractor.asked e.calls).length = next := by
  refine ⟨fun n => (FileExtractor.asked e.calls).getD n next,
    ⟨h.batched, List.ext_getElem (by simp) fun n hn _ => ?_, h.newRecord, h.newFile⟩, by simp⟩
  simp [List.getElem?_eq_getElem hn]

variable {pid : Pid} {k : Worker}

theorem Delivers.batched (h : Delivers U content sha256 pid k s e) : Batched s e :=
  h.drains.elim fun _ hd => hd.batched

theorem Delivers.step_drains (h : Delivers U content sha256 pid k s e)
    (hok : Offered U content e ev) (hst : (executions sha256).step e ev = some e') :
    ∃ answers, Drains answers s e' := by
  obtain ⟨answers, hd⟩ := h.drains
  obtain ⟨answers', hd', hnext⟩ := hd.next (ev.reply.names.getD [])
  refine ⟨answers', hd'.step ⟨hok.1, fun f fileNames _ hr => ?_, hok.2.2⟩ hst⟩
  rw [hnext, hr]; rfl

theorem Delivers.step_world (h : Delivers U content sha256 pid k s e)
    (hok : Offered U content e ev) (hst : (executions sha256).step e ev = some e') :
    ∃ w, (system sha256).Reach (Recovers U content e'.command.taskId) w ∧ Shows w pid e' k := by
  obtain ⟨w, hr, hw⟩ := h.world
  obtain ⟨w', hrun, hw'⟩ := step_in_world hw hst
  rw [(command_step hst).1]
  have hg : (system sha256).Guarded (Recovers U content e.command.taskId) w (labels pid ev) := by
    refine ⟨trivial, fun w₁ h₁ => ⟨fun k' hk' => ?_, fun _ _ => trivial⟩⟩
    obtain ⟨-, rfl⟩ : 0 ≤ ev.elapsed ∧ { w with now := w.now + ev.elapsed } = w₁ := by
      simpa [system, World.step] using h₁
    obtain rfl : { k with handler := e.handler } = k' :=
      Proc.handling.inj (hw.proc.symm.trans hk')
    have hans := hok.2.1.answers
    rwa [← hw.store] at hans
  exact ⟨w', hr.run hg hrun, hw'⟩

/-- **Every call of the contract keeps it.** -/
theorem Delivers.step (h : Delivers U content sha256 pid k s e) (hok : Offered U content e ev)
    (hst : (executions sha256).step e ev = some e') : Delivers U content sha256 pid k s e' := by
  obtain ⟨a, ha⟩ := Reply.of_not_failed hok.1
  have hans := h.batched.sound.answered hst ha
  refine ⟨h.step_drains hok hst, fun f hf => (hf ▸ hans).at_names, fun n hn => ?_,
    h.step_world hok hst⟩
  rcases hans.mem_unprocessed h.batched.going hn with hn | hn
  · exact h.names n hn
  · obtain ⟨f, fileNames, hk, rfl⟩ : ∃ f fileNames, e.handler = .names f ∧
        a = .names fileNames := by
      generalize e.handler = h₀ at hans
      generalize e'.handler = h₁ at hans
      cases hans <;> first | exact ⟨_, _, rfl, rfl⟩ | cases hn
    have hc := hok.2.1
    rw [hk, ha] at hc
    exact (hc.1 n hn).1

/-! ## The measure -/

theorem mem_unmarked {n : String} :
    n ∈ e.unmarked U ↔ n ∈ U ∧ (e.command.taskId, n) ∉ e.store.marked := Finset.mem_filter

/-- Names are marked, and not unmarked again. -/
theorem unmarked_subset (hst : (executions sha256).step e ev = some e')
    (hok : ev.reply.failed = false) : e'.unmarked U ⊆ e.unmarked U := by
  obtain ⟨a, ha⟩ := Reply.of_not_failed hok
  obtain ⟨call, hcall, -⟩ := calls_step hst
  have happly := (store_answered hst ha hcall).2
  intro n hn
  obtain ⟨hU, hm⟩ := mem_unmarked.mp hn
  rw [(command_step hst).1] at hm
  exact mem_unmarked.mpr ⟨hU, fun h => hm (Store.apply_marked_mono happly h)⟩

/-- A mark that takes no name away is of a batch without unmarked names. -/
theorem idle_of_mark (hst : (executions sha256).step e ev = some e')
    (hok : ev.reply.failed = false) {f : Frame} (hk : e.handler = .mark f)
    (heq : e'.unmarked U = e.unmarked U) : e.idle U = 1 := by
  obtain ⟨a, ha⟩ := Reply.of_not_failed hok
  obtain ⟨call, hcall, -⟩ := calls_step hst
  have happly := (store_answered hst ha hcall).2
  refine if_neg fun ⟨n, hn, hu⟩ => ?_
  rw [hk] at hcall hn
  cases hcall
  rw [← heq] at hu
  have hm := (mem_unmarked.mp hu).2
  rw [(command_step hst).1, ← Option.some.inj happly] at hm
  exact hm (List.mem_append_right _ (List.mem_map_of_mem hn))

theorem Delivers.idle_le (h : Delivers U content sha256 pid k s e) (hok : Offered U content e ev)
    (hst : (executions sha256).step e ev = some e') (heq : e'.unmarked U = e.unmarked U) :
    e'.idle U ≤ e.idle U := by
  obtain ⟨a, ha⟩ := Reply.of_not_failed hok.1
  have hle : e'.idle U ≤ 1 := by unfold idle; split <;> simp
  rcases (h.batched.sound.answered hst ha).upcoming h.batched.going with hu | hu | ⟨f, hk⟩
  · rw [idle, idle, hu, heq]
  · have : e.idle U = 1 := if_neg (by simp [hu])
    rwa [this]
  · rwa [idle_of_mark hst hok.1 hk heq]

/-- The unmarked names, whether the next mark takes one of them away, and the distance from the end
of the loop. -/
def rest (U : Finset String) (e : Execution) : ℕ ×ₗ ℕ ×ₗ ℕ ×ₗ ℕ ×ₗ ℕ :=
  toLex ((e.unmarked U).card, toLex (e.idle U, e.handler.distance))

/-- **Every call of the contract brings the run nearer to its end.** -/
theorem Delivers.rest_lt (h : Delivers U content sha256 pid k s e) (hok : Offered U content e ev)
    (hst : (executions sha256).step e ev = some e') : e'.rest U < e.rest U := by
  obtain ⟨a, ha⟩ := Reply.of_not_failed hok.1
  have hans := h.batched.sound.answered hst ha
  have hsub : e'.unmarked U ⊆ e.unmarked U := unmarked_subset hst hok.1
  refine Prod.Lex.toLex_lt_toLex.mpr ?_
  rcases (Finset.card_le_card hsub).lt_or_eq with hlt | hcard
  · exact .inl hlt
  refine .inr ⟨hcard, Prod.Lex.toLex_lt_toLex.mpr ?_⟩
  have heq := Finset.eq_of_subset_of_card_le hsub hcard.ge
  rcases (h.idle_le hok hst heq).lt_or_eq with hlt | hidle
  · exact .inl hlt
  refine .inr ⟨hidle, ?_⟩
  rcases hans.distance h.batched.going h.batched.fed with ⟨f, fileNames, hk, rfl, hne⟩ | hlt
  · -- the next batch has a name that is not marked
    have hc := hok.2.1
    rw [hk, ha] at hc
    rw [hk] at hans
    obtain ⟨n, hn, hup⟩ := hans.of_named hne (h.few f hk)
    have h₀ : e'.idle U = 0 := if_pos ⟨n, hup, heq ▸ mem_unmarked.mpr (hc.1 n hn)⟩
    have h₁ : e.idle U = 1 := if_neg (by rw [hk]; simp [Handler.upcoming])
    omega
  · exact hlt

/-! ## The run can go on -/

theorem contract_done {store : Store} {h : Handler} (hn : ∀ f, h ≠ .names f)
    (hd : ∀ f, h ≠ .download f) (a : Answer) : Contract U content taskId store h (.done a) := by
  cases h with
  | names f => exact absurd rfl (hn f)
  | download f => exact absurd rfl (hd f)
  | _ => trivial

/-- An archive of the batch. -/
def archiveOf (content : String → Bytes) (batch : List String) : Archive :=
  batch.dedup.map fun n => ⟨n, content n⟩

theorem contract_archive {store : Store} {f : Frame} (hf : ∀ n ∈ f.batch, isDirectory n = false) :
    Contract U content taskId store (.download f)
      (.done (.archive (archiveOf content f.batch))) := by
  have hnames : (archiveOf content f.batch).map ZipInfo.filename = f.batch.dedup := by
    simp [archiveOf, Function.comp_def]
  refine ⟨hnames ▸ List.nodup_dedup _, fun n => by rw [hnames, List.mem_dedup], fun info hi => ?_⟩
  obtain ⟨n, hn, rfl⟩ := List.mem_map.mp hi
  exact ⟨rfl, hf n (List.mem_dedup.mp hn)⟩

theorem Delivers.exists_step (h : Delivers U content sha256 pid k s e)
    (hU : ∀ n ∈ U, isDirectory n = false) (he : e.handler.isEnded = false) :
    ∃ ev e', Offered U content e ev ∧ (executions sha256).step e ev = some e' := by
  by_cases hn : ∃ f, e.handler = .names f
  · obtain ⟨f, hk⟩ := hn
    obtain ⟨e', he'⟩ : ∃ e', (executions sha256).step e
        ⟨0, .done (.names (e.unmarked U).toList)⟩ = some e' :=
      step_of_answer (by rw [hk]; rfl) rfl rfl (by rw [hk]; rfl)
    refine ⟨_, e', ⟨rfl, ?_, fun _ _ _ _ hu => by rw [hk] at hu; cases hu⟩, he'⟩
    rw [hk]
    refine ⟨fun n hn => mem_unmarked.mp (Finset.mem_toList.mp hn), fun hnil n hn => ?_⟩
    by_contra hm
    have : n ∈ (e.unmarked U).toList := Finset.mem_toList.mpr (mem_unmarked.mpr ⟨hn, hm⟩)
    rw [hnil] at this; cases this
  by_cases hd : ∃ f, e.handler = .download f
  · obtain ⟨f, hk⟩ := hd
    obtain ⟨e', he'⟩ : ∃ e', (executions sha256).step e
        ⟨0, .done (.archive (archiveOf content f.batch))⟩ = some e' :=
      step_of_answer (by rw [hk]; rfl) rfl rfl (by rw [hk]; rfl)
    refine ⟨_, e', ⟨rfl, ?_, fun _ _ _ _ hu => by rw [hk] at hu; cases hu⟩, he'⟩
    rw [hk]
    refine contract_archive fun n hb => hU n (h.names n ?_)
    rw [hk]; exact List.mem_append_left _ hb
  · obtain ⟨answers, hdr⟩ := h.drains
    obtain ⟨ev, e', hob, hst⟩ := hdr.exists_step he sha256
    obtain ⟨a, ha⟩ := Reply.of_not_failed hob.1
    refine ⟨ev, e', ⟨hob.1, ?_, hob.2.2⟩, hst⟩
    rw [ha]
    exact contract_done (fun f hf => hn ⟨f, hf⟩) (fun f hf => hd ⟨f, hf⟩) a

/-! ## The end -/

/-- Every name of `U` is marked, recorded and stored. -/
structure Delivered (U : Finset String) (content : String → Bytes) (e : Execution) : Prop where
  returned : e.handler = .ended none
  success : ∃ t, e.stored = some t ∧ t.status = .success
  marked : ∀ n ∈ U, (e.command.taskId, n) ∈ e.store.marked
  files : ∀ n ∈ U, ∃ f ∈ e.store.files, e.store.owner f.id = some e.command.taskId ∧
    f.filename = n ∧ f.status = .uploaded
  objects : ∀ n ∈ U, e.store.bucket (Handler.storageKey n) = some (content n)

theorem Delivers.delivered (h : Delivers U content sha256 pid k s e)
    (he : e.handler.isEnded = true) : Delivered U content e := by
  obtain ⟨hend, t, ht, hs, -⟩ := h.batched.ended he
  obtain ⟨w, hr, hw⟩ := h.world
  have hrec := recovery_invariant sha256 U content e.command.taskId w hr
  have hmarks := marks_invariant sha256 w (hr.mono fun _ _ h => h.marksFollow)
  have hpair := (files_invariant sha256 w hr.toFree).paired
  obtain ⟨m, hm, rfl⟩ := Option.map_eq_some_iff.mp ht
  have hstore := hw.store
  rw [stored, ← hstore] at ht
  rw [← hstore] at hm
  have hmarked : ∀ n ∈ U, (e.command.taskId, n) ∈ w.store.marked := hrec.succeeded hm hs
  refine ⟨hend, ⟨_, by rw [stored, ← hstore]; exact ht, hs⟩, fun n hn => hstore ▸ hmarked n hn,
    fun n hn => ?_, fun n hn => ?_⟩
  · obtain ⟨d, hd⟩ := Option.isSome_iff_exists.mp (hmarks.marked (hmarked n hn))
    obtain ⟨hmem, hkey⟩ := Table.get?_eq_some.mp hd
    obtain ⟨f, hf, hlink⟩ := hpair.covered hmem
    have hmatch := hpair.partner hf hmem hlink
    obtain ⟨t', ho, ht'⟩ := Option.map_eq_some_iff.mp hlink
    have htask : t' = e.command.taskId := (congrArg Prod.fst ht').trans (congrArg Prod.fst hkey)
    rw [← hstore]
    exact ⟨f, hf, htask ▸ ho, hmatch.filename.trans (congrArg Prod.snd hkey), hmatch.status⟩
  · rw [← hstore]
    exact object_recovered hr hm hs (hmarks.marked (hmarked n hn))

end Execution

/-- **Delivery after recovery.** Whatever crashes, blocks and reclaims were before, apart from a
cleanup that has not deleted the rows of a file behind its object (`Recovers`): when a handler is
called with the task, and from then on its calls succeed and the API keeps to its contract, the
run comes to its end, whatever the API answers; then the task is `SUCCESS` and every name of `U` is
marked, has a file of the task that is `UPLOADED`, and its content in the bucket. -/
theorem delivered_after_recovery (sha256 : Bytes → Digest) (U : Finset String)
    (hU : ∀ n ∈ U, isDirectory n = false) (content : String → Bytes) (taskId : TaskId) (w : World)
    (hr : (system sha256).Reach (Recovers U content taskId) w) (pid : Pid) (k : Worker)
    (hp : w.procs pid = .handling k) (hk : k.handler = .getTask) :
    (Execution.executions sha256).Leads (Execution.Offered U content)
      (Execution.Delivered U content) (Execution.start k.message w.now w.store) := by
  have hx := exclusive_invariant sha256 w (hr.mono fun _ _ h => h.marksFollow.reclaimsEnded)
  have hlive : w.Live pid k := ⟨hp, by rw [hk]; rfl⟩
  obtain ⟨m, hm, howns⟩ := hx.owns hlive
  obtain rfl := (recovery_invariant sha256 U content taskId w hr).task_of_live hx hlive
  have hrow : w.store.tasks.getById k.message.taskId = some m.toDomain := by
    rw [TaskTable.getById, hm]; rfl
  have hstart : Execution.Delivers U content sha256 pid k m.toDomain
      (Execution.start k.message w.now w.store) :=
    { drains := ⟨fun _ => [], Execution.drains_start hrow howns.running⟩
      few := fun f hf => by cases hf
      names := fun n hn => by cases hn
      world := ⟨w, hr, Execution.shows_start hp hk⟩ }
  refine System.Leads.mono (System.Leads.of_measure wellFounded_lt (Execution.rest U)
    (I := Execution.Delivers U content sha256 pid k m.toDomain)
    (P := fun e => e.handler.isEnded = true ∧ Execution.Delivered U content e)
    (fun e h hne => h.exists_step hU (Bool.eq_false_iff.mpr fun he => hne ⟨he, h.delivered he⟩))
    (fun e ev e' h _ hok hst => ⟨h.step hok hst, h.rest_lt hok hst⟩) hstart) fun e he => he.2

/-! ## A worker that dies after its claim -/

/-- `Recovers`, checked for the first four processes. -/
def recoversCheck (w : World) (l : Label) : Bool :=
  environmentCheck w l && match l with
    | .crash pid => match w.procs pid with
      | .handling k => !k.handler.recovering
      | _ => true
    | _ => true

theorem recovers_of_check {w : World} {l : Label} (hw : w.Within 4)
    (hc : recoversCheck w l = true) : Recovers {"x"} (fun _ => [1]) "t" w l := by
  obtain ⟨henv, hcrash⟩ := Bool.and_eq_true .. ▸ hc
  refine (environment_of_check hw henv).recovers fun pid k f e file todo hl hp hk => ?_
  subst hl
  simp [hp, hk, Handler.recovering] at hcrash

/-- The handler of the process has just been called. -/
def called (w : World) (pid : Pid) : Bool :=
  match w.procs pid with
  | .handling ⟨_, _, .getTask, _⟩ => true
  | _ => false

/-- Its successor delivers the one name. -/
theorem delivered_after_crash : ∃ (w : World) (evs : List Event) (e : Execution),
    w.now = 301 ∧ Execution.Delivered {"x"} (fun _ => [1]) e ∧
    (Execution.executions fun _ => 0).run (.start ⟨"t", none⟩ w.now w.store) evs = some e := by
  have hrun : ((system fun _ => 0).runIf recoversCheck (fresh 0 fun _ => none)
      [.start 0 "t" none .done, .send 0, .deliver 1 ⟨"t", none⟩ "a", .claim 1 .done, .crash 1,
        .tick 301, .reclaimStuck 3 ["t"] .done, .send 3, .deliver 2 ⟨"t", none⟩ "b",
        .claim 2 .done]).any (fun w => called w 2 && decide (w.now = 301) &&
          ((w.procs 2).message = some ⟨"t", none⟩)) = true := by decide +kernel
  have hinit : (system fun _ => 0).Reach (Recovers {"x"} (fun _ => [1]) "t")
      (fresh 0 fun _ => none) := .init ⟨0, fun _ => none, rfl⟩
  obtain ⟨w, hr, hcheck⟩ := hinit.runIf (I := World.Within 4)
    (fun w l w' hw hc hst => hw.step (Step.of_step hst) (by
      simp only [recoversCheck, environmentCheck, Bool.and_eq_true] at hc; exact hc.1.1))
    (fun w l hw hc => recovers_of_check hw hc) .fresh hrun
  simp only [Bool.and_eq_true, decide_eq_true_eq] at hcheck
  obtain ⟨⟨hcalled, hnow⟩, hmessage⟩ := hcheck
  unfold called at hcalled
  split at hcalled
  · next message workerId lost hp =>
    obtain rfl : message = ⟨"t", none⟩ := by rw [hp] at hmessage; exact Option.some.inj hmessage
    have hset : (({"x"} : Finset String) : Set String) = {"x"} := Finset.coe_singleton "x"
    obtain ⟨evs, e, -, hrun, he⟩ := (delivered_after_recovery (fun _ => 0) {"x"} (by decide)
      (fun _ => [1]) "t" w (hset ▸ hr) 2 _ hp rfl).exists_run
    exact ⟨w, evs, e, hnow, he, hrun⟩
  · cases hcalled

end FileExtractor
