import FileExtractor.Application.Outstanding
import FileExtractor.Worker.Execution

/-!
# The names that are given back

A run in which only the API may raise, on a row that has processed all the names it has received.
When it ends the row has again, exactly if the API has raised at no `get_file_names` with names
pending and no block in a batch has ended beyond the last time of `datetime` (`given_back_iff`).
`Balanced` is the invariant: the copy, and between two writes also the row, owes the outstanding
names.
-/

namespace FileExtractor

open Lts

namespace Execution

/-- Only a call of the API may raise. -/
def OnlyApiFails (e : Execution) (ev : Event) : Prop :=
  ev.reply.failed = true → e.handler.callsApi = true

/-- No end of the run keeps names. -/
def GivesBack (e : Execution) (ev : Event) : Prop :=
  e.handler.GivesBack (e.now + ev.elapsed) ev.reply.seen

/-- The copy and the row owe the outstanding names. -/
structure Balanced (c : String) (e : Execution) : Prop where
  sound : Sound c e
  fed : e.handler.Fed
  copy : e.handler.Held DownloadTask.Owes
  row : e.handler.settles = false → ∃ s, e.stored = some s ∧ s.Owes e.handler.outstanding

/-- The run ends, or has ended, with a row that owes names. -/
def Indebted (c : String) (e : Execution) : Prop :=
  (e.handler.isEnded = true ∧
    ∃ s, e.stored = some s ∧ s.receivedFiles ≠ s.processedFiles) ∨
  (Sound c e ∧ ∃ f, (e.handler = .storeBlocked f ∨ e.handler = .storeFailed f) ∧
    f.task.receivedFiles ≠ f.task.processedFiles)

variable {sha256 : Bytes → Digest} {e e' : Execution} {ev : Event} {c : String}

theorem OnlyApiFails.settles (hok : OnlyApiFails e ev) (hs : e.handler.settles = true) :
    ev.reply.failed = false := by
  refine Bool.eq_false_iff.mpr fun hf => ?_
  have hc := hok hf
  rw [Handler.callsApi_of_settles hs] at hc
  cases hc

/-- The row after an event, whatever it is. -/
theorem Balanced.row_next (h : Balanced c e) (hok : OnlyApiFails e ev)
    (hst : (executions sha256).step e ev = some e') :
    ∃ s, e'.stored = some s ∧ s.Owes e.handler.outstanding := by
  cases hs : e.handler.settles with
  | true =>
    obtain ⟨t, hc⟩ := Handler.call_of_settles e.command hs
    have hf := hok.settles hs
    refine ⟨t, h.sound.written hst hc fun x hx => ?_, Handler.owes_of_call h.copy hc⟩
    rw [hx] at hf; cases hf
  | false =>
    rcases h.sound.stored_step hst with hk | ⟨t, hc, ht⟩
    · rw [hk]; exact h.row hs
    · exact ⟨t, ht, Handler.owes_of_call h.copy hc⟩

theorem Balanced.step (h : Balanced c e) (hok : OnlyApiFails e ev) (hg : GivesBack e ev)
    (hst : (executions sha256).step e ev = some e') : Balanced c e' := by
  have hrow := h.row_next hok hst
  have hfed : e'.handler.Fed := by
    obtain ⟨c', store, handler, -, -, -, hres, rfl⟩ := step_eq hst
    exact Handler.resume_fed h.sound.running h.sound.keyed h.fed hres
  have hcopy : e'.handler.Held DownloadTask.Owes ∧
      (e'.handler.settles = false → e'.handler.outstanding = e.handler.outstanding) := by
    cases hr : ev.reply.failed with
    | false =>
      obtain ⟨a, ha⟩ := Reply.of_not_failed hr
      have hans := h.sound.answered hst ha
      rw [GivesBack, ha] at hg
      refine ⟨hans.owes h.copy (fun t ht => ?_) h.sound.running, hans.outstanding hg⟩
      obtain ⟨hk, hts, -⟩ := h.sound.reads hst (ht ▸ ha)
      obtain ⟨s, hs, howes⟩ := h.row (by rw [hk]; rfl)
      rw [hs] at hts; cases hts
      rwa [hk] at howes
    | true =>
      obtain ⟨x, hx⟩ := Reply.seen_failed hr
      have hfail := h.sound.failed hst hx
      rw [GivesBack, hx] at hg
      exact ⟨hfail.owes (hok hr) hg h.copy, hfail.outstanding (hok hr) hg⟩
  refine ⟨h.sound.step hst, hfed, hcopy.1, fun hs => ?_⟩
  rw [hcopy.2 hs]; exact hrow

theorem Balanced.indebted (h : Balanced c e) (hok : OnlyApiFails e ev)
    (hst : (executions sha256).step e ev = some e') (hg : ¬ GivesBack e ev) : Indebted c e' := by
  obtain ⟨s, hs, -, howes⟩ := h.row_next hok hst
  have hsound := h.sound.step hst
  obtain ⟨c', store, handler, -, -, -, hres, rfl⟩ := step_eq hst
  obtain ⟨hne, he | hf⟩ := Handler.resume_keeps_names h.sound.running h.sound.keyed h.copy h.fed
    hres hg
  · exact .inl ⟨he, s, hs, by omega⟩
  · exact .inr ⟨hsound, hf⟩

theorem Indebted.step (h : Indebted c e) (hok : OnlyApiFails e ev)
    (hst : (executions sha256).step e ev = some e') : Indebted c e' := by
  rcases h with ⟨he, -⟩ | ⟨hsound, f, hh, hne⟩
  · rw [not_ended hst] at he; cases he
  · obtain ⟨hend, hcall, -⟩ := hsound.ends hst (f := f) (hh.imp_right .inr)
    have hfails := hok.settles (by rcases hh with hk | hk <;> rw [hk] <;> rfl)
    refine .inl ⟨hend, f.task, hsound.written hst hcall fun x hx => ?_, hne⟩
    rw [hx] at hfails; cases hfails

/-- **A run in which only the API raises** gives all names back exactly when it ends at no
`get_file_names` with names pending, and with no block in a batch that overflows. -/
theorem given_back_iff (sha256 : Bytes → Digest) (command : ProcessFilesCommand) (now : Time)
    (store : Store) (s : DownloadTask) (hs : store.tasks.getById command.taskId = some s)
    (hr : s.status = .running) (hb : s.receivedFiles = s.processedFiles)
    (h0 : 0 ≤ s.processedFiles) (evs : List Event) (e : Execution)
    (hg : (executions sha256).Guarded OnlyApiFails (start command now store) evs)
    (hrun : (executions sha256).run (start command now store) evs = some e)
    (he : e.handler.isEnded = true) :
    (∀ s, e.stored = some s → s.receivedFiles = s.processedFiles) ↔
      (executions sha256).Guarded GivesBack (start command now store) evs := by
  have hstart : Balanced s.candidateId (start command now store) :=
    ⟨sound_start hs hr, trivial, trivial,
      fun _ => ⟨s, hs, h0, by simp [hb, start, Handler.outstanding]⟩⟩
  rcases System.guarded_or_trapped GivesBack (Balanced s.candidateId) (Indebted s.candidateId)
      (fun e ev e' h hok hst hc => h.step hok hc hst)
      (fun e ev e' h hok hst hc => h.indebted hok hst hc)
      (fun e ev e' h hok hst => h.step hok hst) hstart hg hrun with ⟨hc, hgood⟩ | ⟨hc, hbad⟩
  · refine ⟨fun _ => hc, fun _ t ht => ?_⟩
    obtain ⟨t', ht', -, howes⟩ := hgood.row (Handler.settles_of_isEnded he)
    rw [ht] at ht'; cases ht'
    rw [howes, Handler.outstanding_of_isEnded he]; simp
  · rcases hbad with ⟨-, t, ht, hne⟩ | ⟨-, f, hh, -⟩
    · exact ⟨fun h => absurd (h t ht) hne, fun h => absurd h hc⟩
    · rcases hh with hk | hk <;> rw [hk] at he <;> cases he

/-- `OnlyApiFails`, checked. -/
def onlyApiFailsCheck (e : Execution) (ev : Event) : Bool :=
  !ev.reply.failed || e.handler.callsApi

theorem onlyApiFails_of_check (e : Execution) (ev : Event) (h : onlyApiFailsCheck e ev = true) :
    OnlyApiFails e ev := by
  intro hf
  rwa [onlyApiFailsCheck, hf, Bool.not_true, Bool.false_or] at h

/-- A batch is processed, and the next `get_file_names` is blocked. -/
def blockedLater (fileNames : List String) : List Event :=
  [taskRead, ⟨1, .done (.names fileNames)⟩, ⟨1, .done .done⟩, ⟨1, .done (.archive [])⟩,
    ⟨1, .done .next⟩, ⟨1, .done .done⟩, ⟨1, .done .done⟩, ⟨1, .refused (.blocked 100)⟩,
    ⟨1, .done .done⟩]

/-- The run of `blockedLater` for a single name. -/
theorem single_name_given_back : ∃ e,
    (executions fun _ => 0).run (start ⟨"t", none⟩ 0 claimedStore) (blockedLater ["x"]) = some e ∧
    ((∀ s, e.stored = some s → s.receivedFiles = s.processedFiles) ↔
      (executions fun _ => 0).Guarded GivesBack (start ⟨"t", none⟩ 0 claimedStore)
        (blockedLater ["x"])) := by
  obtain ⟨hg, e, hrun, he⟩ := System.guarded_of_runIf (S := executions fun _ => 0)
    (s := start ⟨"t", none⟩ 0 claimedStore) onlyApiFails_of_check (blockedLater ["x"])
    (fun e => e.handler.isEnded) (by decide +kernel)
  exact ⟨e, hrun, given_back_iff _ _ _ _ _ rfl rfl rfl (by decide) _ e hg hrun he⟩

/-- The fourth of four names is still pending, and it is not given back. -/
theorem fourth_name_kept : ¬ ∀ (command : ProcessFilesCommand) (now : Time) (store : Store)
    (s : DownloadTask), store.tasks.getById command.taskId = some s → s.status = .running →
    s.receivedFiles = s.processedFiles → ∀ (evs : List Event) (e : Execution),
      (executions fun _ => 0).Guarded OnlyApiFails (start command now store) evs →
      (executions fun _ => 0).run (start command now store) evs = some e →
      e.handler.isEnded = true →
      ∀ s, e.stored = some s → s.receivedFiles = s.processedFiles := by
  intro hclaim
  obtain ⟨hg, e, hrun, he⟩ := System.guarded_of_runIf (S := executions fun _ => 0)
    (s := start ⟨"t", none⟩ 0 claimedStore) onlyApiFails_of_check
    (blockedLater ["w", "x", "y", "z"])
    (fun e => e.handler.isEnded &&
      e.stored.any fun s => s.receivedFiles = 4 && s.processedFiles = 3) (by decide +kernel)
  rw [Bool.and_eq_true, Option.any_eq_true] at he
  obtain ⟨he, s, hs, hcount⟩ := he
  simp only [Bool.and_eq_true, decide_eq_true_eq] at hcount
  have heq := hclaim _ _ _ _ rfl rfl rfl _ e hg hrun he s hs
  rw [hcount.1, hcount.2] at heq
  cases heq

end Execution

end FileExtractor
