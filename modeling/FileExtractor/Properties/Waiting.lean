import FileExtractor.Properties.Obtained
import FileExtractor.Properties.Releases
import FileExtractor.Properties.Suspension
import FileExtractor.Worker.Runs
import Mathlib.Data.Finset.Card

/-!
# A dead task does not wait for long

`reclaim_stuck` takes twenty stuck tasks, whichever the database finds first, so a task whose
handler has died may be left out. But a task that is taken is `PENDING`, and once it is claimed
again its heartbeat is fresh; so it is not stuck again within five minutes. Each commit of
`reclaim_stuck` takes the dead task or, for these five minutes, twenty others out of its way
(`Waits.pass`), and only the tasks that were `RUNNING` at the beginning are in its way. Each pass is
one step: two that overlap would select the same tasks.
-/

namespace FileExtractor

open Rel Lts World

/-- A `reclaim_stuck` that commits. -/
def Label.isPass : Label → Bool
  | .reclaimStuck _ _ fate => fate ≠ .refused
  | _ => false

/-- The heartbeat, if there is one, is not before `T`. -/
def BeatsFrom (T : Time) (lastHeartbeat : Option Time) : Prop :=
  ∀ t, lastHeartbeat = some t → T ≤ t

theorem beatsFrom_keptAt {T now : Time} (h : T ≤ now) :
    KeptAt now fun _ t => BeatsFrom T t.lastHeartbeat where
  heartbeat _ _ := fun t e => by cases e; exact h
  received _ _ hj := hj
  decreased _ hj := hj
  processed _ _ hj := hj
  completed _ hj := hj
  failed _ _ hj := hj
  blocked _ _ _ _ _ _ _ hj := hj

/-- Without a new heartbeat a stuck task stays stuck. -/
theorem DownloadTaskModel.isStuck_mono {m : DownloadTaskModel} {c c' : Time}
    (h : m.isStuck c = true) (hc : c ≤ c') : m.isStuck c' = true := by
  obtain ⟨hs, hb⟩ := (Bool.and_eq_true ..).mp h
  obtain ⟨t, ht, hlt⟩ := (Option.any_eq_true ..).mp hb
  have hlt' : t < c' := (of_decide_eq_true hlt).trans_le hc
  simp [isStuck, of_decide_eq_true hs, ht, hlt']

/-- A sub-select that leaves a row out has found as many as it may. -/
theorem TaskTable.length_of_selects {tasks : TaskTable} {p : DownloadTaskModel → Bool} {limit : Nat}
    {ids : List TaskId} {m : DownloadTaskModel} (h : tasks.selects p limit ids = true)
    (hm : m ∈ tasks) (hp : p m = true) (hnot : m.id ∉ ids) : ids.Nodup ∧ ids.length = limit := by
  have hrow : ∀ id ∈ ids, ∃ m, tasks.get? id = some m ∧ p m = true :=
    fun _ hid => TaskTable.selects_row h hid
  simp only [selects, Bool.and_eq_true, decide_eq_true_eq] at h
  obtain ⟨⟨hnodup, -⟩, hlen⟩ := h
  have hsub : m.id :: ids ⊆ (tasks.rows.filter p).map DownloadTaskModel.id := by
    refine List.cons_subset.mpr ⟨List.mem_map_of_mem (List.mem_filter.mpr ⟨hm, hp⟩), ?_⟩
    intro id hid
    obtain ⟨m', hm', hp'⟩ := hrow id hid
    obtain ⟨hmem, rfl⟩ := Table.get?_eq_some.mp hm'
    exact List.mem_map_of_mem (List.mem_filter.mpr ⟨hmem, hp'⟩)
  have hle := (List.subperm_of_subset (List.nodup_cons.mpr ⟨hnot, hnodup⟩) hsub).length_le
  rw [List.length_map, ← List.countP_eq_length_filter, List.length_cons] at hle
  exact ⟨hnodup, by omega⟩

namespace World

/-- The tasks that are `RUNNING` and were not claimed since the claims were `claims`. -/
def running (claims : TaskId → Nat) (w : World) : Finset TaskId :=
  ((w.store.tasks.rows.filter fun m => m.status = .running ∧ w.claims m.id = claims m.id).map
    DownloadTaskModel.id).toFinset

/-- The task `m` waits for a reclaim since the time `T`, when the claims were `claims`: nothing
happens to its row, and what has been claimed since has a heartbeat since. -/
structure Waits (claims : TaskId → Nat) (T : Time) (m : DownloadTaskModel) (w : World) : Prop where
  row : w.store.tasks.get? m.id = some m
  unclaimed : w.claims m.id = claims m.id
  dead : ∀ {pid k}, w.Live pid k → k.message.taskId ≠ m.id
  now : T ≤ w.now
  grown : ∀ id, claims id ≤ w.claims id
  rows : ∀ {id row}, w.store.tasks.get? id = some row → w.claims id ≠ claims id →
    BeatsFrom T row.lastHeartbeat
  copies : ∀ {pid k}, w.Live pid k → w.claims k.message.taskId ≠ claims k.message.taskId →
    k.handler.Held fun _ t => BeatsFrom T t.lastHeartbeat

variable {sha256 : Bytes → Digest} {w w' : World} {l : Label} {id : TaskId}
  {claims : TaskId → Nat} {T : Time} {m : DownloadTaskModel}

theorem mem_running : id ∈ w.running claims ↔
    ∃ row, w.store.tasks.get? id = some row ∧ row.status = .running ∧ w.claims id = claims id := by
  simp only [running, List.mem_toFinset, List.mem_map, List.mem_filter, decide_eq_true_eq]
  constructor
  · rintro ⟨row, ⟨hrow, hs, hc⟩, rfl⟩
    exact ⟨row, Table.get?_eq_some.mpr ⟨hrow, rfl⟩, hs, hc⟩
  · rintro ⟨row, hrow, hs, hc⟩
    obtain ⟨hmem, rfl⟩ := Table.get?_eq_some.mp hrow
    exact ⟨row, ⟨hmem, hs, hc⟩, rfl⟩

/-! ## One step -/

/-- A row becomes `RUNNING` by a claim only. -/
theorem Exclusive.running_subset (hw : w.Exclusive) (hid : w.CopiesOfMessage)
    (h : Step sha256 w l w') (hgrown : ∀ id, claims id ≤ w.claims id) :
    w'.running claims ⊆ w.running claims := by
  intro id hmem
  obtain ⟨row', hrow', hs', hc'⟩ := mem_running.mp hmem
  have hr := h.rowStep hrow'
  generalize hg : w.store.tasks.get? id = g at hr
  cases hr with
  | kept row hn => exact mem_running.mpr ⟨_, hg, hs', hn ▸ hc'⟩
  | added pid candidateId fate hl hn => cases hs'
  | claimed row pid msg workerId fate hl hf hp hm hs hn => have := hgrown id; omega
  | written row pid reply k t hl hp hc ht hn =>
    obtain ⟨-, ho, -⟩ := hw.written (hid pid k hp) (ht ▸ hg) hp hc
    exact mem_running.mpr ⟨row, hg, ho.running, hn ▸ hc'⟩
  | releasedStuck row pid ids fate hl hf hmem' hs hn => cases hs'
  | releasedBlocked row pid ids fate hl hf hmem' hs hn => cases hs'

/-- A `RUNNING` task is not claimed. -/
theorem claims_of_running (h : Step sha256 w l w') {row : DownloadTaskModel}
    (hrow : w.store.tasks.get? id = some row) (hs : row.status = .running) :
    w'.claims id = w.claims id := by
  obtain ⟨row', hrow'⟩ := h.row_persists hrow
  have hr := h.rowStep hrow'
  rw [hrow] at hr
  cases hr with
  | claimed _ pid msg workerId fate hl hf hp hm hs' hn => rw [hs] at hs'; cases hs'
  | kept _ hn => exact hn
  | written _ pid reply k t hl hp hc ht hn => exact hn
  | releasedStuck _ pid ids fate hl hf hmem hs hn => exact hn
  | releasedBlocked _ pid ids fate hl hf hmem hs hn => exact hn

namespace Waits

variable (hw : w.Waits claims T m) (hx : w.Exclusive) (hid : w.CopiesOfMessage)
include hw hx hid

theorem step_row (h : Step sha256 w l w') (hs : m.status = .running)
    (hl : l.releases m.id = false) : w'.store.tasks.get? m.id = some m := by
  obtain ⟨m', hm'⟩ := h.row_persists hw.row
  have hr := h.rowStep hm'
  rw [hw.row] at hr
  cases hr with
  | kept _ hn => exact hm'
  | claimed _ pid msg workerId fate hl' hf hp hm hs' hn => rw [hs] at hs'; cases hs'
  | written _ pid reply k t hl' hp hc ht hn =>
    obtain ⟨ht', -⟩ := hx.written (hid pid k hp) (ht ▸ hw.row) hp hc
    exact absurd (ht'.trans ht) (hw.dead (live_of_call hp hc))
  | releasedStuck _ pid ids fate hl' hf hmem hs' hn =>
    subst hl'
    simp [Label.releases, hmem, hf] at hl
  | releasedBlocked _ pid ids fate hl' hf hmem hs' hn =>
    subst hl'
    simp [Label.releases, hmem, hf] at hl

theorem step_rows (h : Step sha256 w l w') {row' : DownloadTaskModel}
    (hrow' : w'.store.tasks.get? id = some row') (hne : w'.claims id ≠ claims id) :
    BeatsFrom T row'.lastHeartbeat := by
  have hr := h.rowStep hrow'
  generalize hg : w.store.tasks.get? id = g at hr
  cases hr with
  | kept row hn => exact hw.rows hg (hn ▸ hne)
  | added pid candidateId fate hl hn => exact fun t e => by cases e
  | claimed row pid msg workerId fate hl hf hp hm hs hn => exact fun t e => by cases e; exact hw.now
  | written row pid reply k t hl hp hc ht hn =>
    obtain ⟨ht', -⟩ := hx.written (hid pid k hp) (ht ▸ hg) hp hc
    have hcopy := hw.copies (live_of_call hp hc) (by rw [ht', ht, ← hn]; exact hne)
    exact (hcopy.written hc).1.choose_spec
  | releasedStuck row pid ids fate hl hf hmem hs hn => exact fun t e => by cases e
  | releasedBlocked row pid ids fate hl hf hmem hs hn =>
    have hrow : BeatsFrom T row.lastHeartbeat := hw.rows hg (hn ▸ hne)
    exact hrow

omit hid in
theorem step_copies (h : Step sha256 w l w') {pid : Pid} {k' : Worker} (hk : w'.Live pid k')
    (hne : w'.claims k'.message.taskId ≠ claims k'.message.taskId) :
    k'.handler.Held fun _ t => BeatsFrom T t.lastHeartbeat := by
  -- the task of a handler that was live before is not claimed
  have hkept : ∀ {k}, w.Live pid k → k.message = k'.message →
      w.claims k.message.taskId ≠ claims k.message.taskId := by
    intro k hk he
    obtain ⟨row, hrow, ho⟩ := hx.owns hk
    rw [← claims_of_running h hrow ho.running, he]
    exact hne
  cases h.handling hk.handling with
  | kept k lost hp hl hlost =>
    have hlive : w.Live pid k := ⟨hp, hk.2⟩
    have hheld := hw.copies hlive (hkept hlive rfl)
    exact hheld
  | begun msg workerId row hl hp hrow hs hrow' => trivial
  | resumed k reply c handler hl hp hc hs hr =>
    have hlive := live_of_call hp hc
    refine (hw.copies hlive (hkept hlive rfl)).resume_at (beatsFrom_keptAt hw.now)
      (fun t ht => ?_) _ hr
    obtain ⟨-, row, hrow, rfl⟩ := Handler.reads hc hs hr ht
    exact hw.rows hrow (hkept hlive rfl)

theorem step (h : Step sha256 w l w') (hs : m.status = .running)
    (hl : l.releases m.id = false) : w'.Waits claims T m where
  row := hw.step_row hx hid h hs hl
  unclaimed := (claims_of_running h hw.row hs).trans hw.unclaimed
  dead hk := by
    rcases hk.before h with ⟨-, -, row, hrow, hs', -⟩ | ⟨k, hk', he, -⟩
    · intro he
      rw [he, hw.row] at hrow
      cases hrow
      rw [hs] at hs'; cases hs'
    · exact he ▸ hw.dead hk'
  now := hw.now.trans h.now_mono
  grown id := (hw.grown id).trans (h.claims_mono id)
  rows := hw.step_rows hx hid h
  copies := hw.step_copies hx h

omit hx hid in
/-- What a commit takes within five minutes was not claimed since `T`. -/
theorem stuck_running (hnow : w.now ≤ T + maxHeartbeatAge) {row : DownloadTaskModel}
    (hrow : w.store.tasks.get? id = some row)
    (hs : row.isStuck (w.now - maxHeartbeatAge) = true) : id ∈ w.running claims := by
  refine mem_running.mpr ⟨row, hrow, DownloadTaskModel.running_of_isStuck hs, ?_⟩
  by_contra hne
  obtain ⟨t, ht, hlt⟩ := (Option.any_eq_true ..).mp ((Bool.and_eq_true ..).mp hs).2
  have hT := hw.rows hrow hne t ht
  have hlt : t < T := (of_decide_eq_true hlt).trans_le (sub_le_iff_le_add.mpr hnow)
  exact absurd hT (not_le.mpr hlt)

/-- **A commit that leaves the task out** takes twenty others out of its way. -/
theorem pass (hnow : w.now ≤ T + maxHeartbeatAge)
    (hs : m.isStuck (w.now - maxHeartbeatAge) = true) {pid : Pid} {ids : List TaskId} {fate : Fate}
    (hf : fate ≠ .refused) (h : Step sha256 w (.reclaimStuck pid ids fate) w') (hnot : m.id ∉ ids) :
    (w'.running claims).card + reclaimLimit ≤ (w.running claims).card := by
  have hsub := hx.running_subset hid h hw.grown
  cases h with
  | refused l hl =>
    cases fate with
    | refused => exact absurd rfl hf
    | _ => cases hl
  | reclaimStuck pid ids fate hp hf hsel =>
    have hmem : m ∈ w.store.tasks := (Table.get?_eq_some.mp hw.row).1
    obtain ⟨hnodup, hlen⟩ := TaskTable.length_of_selects hsel hmem hs hnot
    have hids : ids.toFinset ⊆ w.running claims := by
      intro id hid
      obtain ⟨row, hrow, hstuck⟩ := TaskTable.selects_row hsel (List.mem_toFinset.mp hid)
      exact hw.stuck_running hnow hrow hstuck
    rw [← hlen, ← List.toFinset_card_of_nodup hnodup, ← Finset.card_union_of_disjoint]
    · exact Finset.card_le_card (Finset.union_subset hsub hids)
    · -- what is taken is `PENDING`
      refine Finset.disjoint_left.mpr fun id hrun hid => ?_
      obtain ⟨row', hrow', hs', -⟩ := mem_running.mp hrun
      replace hrow' : (w.store.tasks.reclaimStuck ids).get? id = some row' := hrow'
      rw [TaskTable.get?_reclaimStuck] at hrow'
      obtain ⟨row, hrow, rfl⟩ := Option.map_eq_some_iff.mp hrow'
      rw [(Table.get?_eq_some.mp hrow).2, if_pos (List.mem_toFinset.mp hid)] at hs'
      cases hs'

/-- Every step that does not reclaim the task. -/
theorem card_running (hnow : w.now ≤ T + maxHeartbeatAge)
    (hs : m.isStuck (w.now - maxHeartbeatAge) = true) (h : Step sha256 w l w')
    (hl : l.releases m.id = false) :
    (w'.running claims).card + (if l.isPass then reclaimLimit else 0) ≤
      (w.running claims).card := by
  split
  · next hp =>
    cases l with
    | reclaimStuck pid ids fate =>
      have hf : fate ≠ .refused := by simpa [Label.isPass] using hp
      exact hw.pass hx hid hnow hs hf h fun hmem => by simp [Label.releases, hmem, hf] at hl
    | _ => cases hp
  · exact Finset.card_le_card (hx.running_subset hid h hw.grown)

end Waits

end World

/-! ## The run -/

theorem guarded_now {sha256 : Bytes → Digest} {w w' : World} {ls : List Label} {b : Time}
    (hrun : (system sha256).run w ls = some w') (hnow : w'.now ≤ b) :
    (system sha256).Guarded (fun w _ => w.now ≤ b) w ls := by
  induction ls generalizing w with
  | nil => trivial
  | cons l ls ih =>
    refine ⟨(now_mono_run hrun).trans hnow, fun v hv => ?_⟩
    obtain ⟨v', hv', hrun⟩ := System.run_cons_eq_some.mp hrun
    rw [hv] at hv'; cases hv'
    exact ih hrun

/-- **A dead task is reclaimed in time.** While `reclaim_stuck` takes only tasks of ended handlers:
in every run that lasts at most five minutes, from a reachable state in which a task is stuck and
has no live handler, the task is reclaimed if twenty times the number of commits of `reclaim_stuck`
is at least the number of tasks that were `RUNNING` at the beginning. No two passes overlap, as each
is one step. -/
theorem reclaimed_in_time (sha256 : Bytes → Digest) (m : DownloadTaskModel) (w w' : World)
    (ls : List Label) (hr : (system sha256).Reach ReclaimsEnded w)
    (hg : (system sha256).Guarded ReclaimsEnded w ls) (hrun : (system sha256).run w ls = some w')
    (hm : m ∈ w.store.tasks) (hstuck : m.isStuck (w.now - maxHeartbeatAge) = true)
    (hdead : ∀ pid k, w.Live pid k → k.message.taskId ≠ m.id)
    (hnow : w'.now ≤ w.now + maxHeartbeatAge)
    (hpasses : w.store.tasks.rows.countP (fun row => row.status = .running) ≤
      reclaimLimit * ls.countP Label.isPass) : ∃ l ∈ ls, l.releases m.id = true := by
  by_contra hnone
  have hno : ∀ l ∈ ls, l.releases m.id = false := fun l hl =>
    Bool.eq_false_iff.mpr fun hrel => hnone ⟨l, hl, hrel⟩
  have hrunning := DownloadTaskModel.running_of_isStuck hstuck
  have hwaits : w.Waits w.claims w.now m :=
    { row := Table.get?_eq_some.mpr ⟨hm, rfl⟩
      unclaimed := rfl
      dead := hdead _ _
      now := le_rfl
      grown := fun _ => le_rfl
      rows := fun _ hne => absurd rfl hne
      copies := fun _ hne => absurd rfl hne }
  have hguard := System.guarded_and hg (System.guarded_and (guarded_now hrun hnow)
    (System.guarded_of_forall (S := system sha256) (s := w) fun l hl _ => hno l hl))
  have hstep : ∀ v l v', (system sha256).Reach ReclaimsEnded v ∧ v.Waits w.claims w.now m →
      (ReclaimsEnded v l ∧ v.now ≤ w.now + maxHeartbeatAge ∧ l.releases m.id = false) →
      (system sha256).step v l = some v' →
      ((system sha256).Reach ReclaimsEnded v' ∧ v'.Waits w.claims w.now m) ∧
        (v'.running w.claims).card + (if l.isPass then reclaimLimit else 0) ≤
          (v.running w.claims).card := by
    rintro v l v' ⟨hrv, hv⟩ ⟨hok, hnow, hl⟩ hst
    have h := Step.of_step hst
    have hx := exclusive_invariant sha256 v hrv
    have hid := copies_of_message sha256 v hrv.toFree
    have hstuck' := DownloadTaskModel.isStuck_mono hstuck (sub_le_sub_right hv.now maxHeartbeatAge)
    exact ⟨⟨.step hrv hok hst, hv.step hx hid h hrunning hl⟩,
      hv.card_running hx hid hnow hstuck' h hl⟩
  obtain ⟨⟨-, hlast⟩, hle⟩ := System.run_potential hstep ⟨hr, hwaits⟩ hguard hrun
  have hmem : m.id ∈ w'.running w.claims :=
    mem_running.mpr ⟨m, hlast.row, hrunning, hlast.unclaimed⟩
  have hpos := Finset.card_pos.mpr ⟨_, hmem⟩
  have hcard : (w.running w.claims).card ≤
      w.store.tasks.rows.countP fun row => row.status = .running := by
    refine (List.toFinset_card_le _).trans ?_
    rw [List.length_map, ← List.countP_eq_length_filter]
    exact List.countP_mono_left fun row _ hrow => by simp_all
  omega

/-- A worker dies after its claim, and five minutes pass. -/
def deadTask : List Label :=
  [.start 0 "t" none .done, .send 0, .deliver 1 ⟨"t", none⟩ "a", .claim 1 .done, .crash 1,
    .tick 301]

/-- The one task is reclaimed by the one commit. -/
theorem dead_task_reclaimed : ∃ w w',
    (system fun _ => 0).run (fresh 0 fun _ => none) deadTask = some w ∧
    (system fun _ => 0).run w [.reclaimStuck 3 ["t"] .done, .send 3] = some w' ∧
    ∃ l ∈ [Label.reclaimStuck 3 ["t"] .done, .send 3], l.releases "t" = true := by
  obtain ⟨w, h₁, hp⟩ := (Option.any_eq_true ..).mp
    (by decide +kernel : ((system fun _ => 0).run (fresh 0 fun _ => none) deadTask).any (fun w =>
      (w.store.tasks.get? "t").any (fun m => m.isStuck (w.now - maxHeartbeatAge)) &&
        w.endedWithin 4 ["t"] && decide (w.store.tasks.rows.countP
          (fun row => row.status = .running) ≤ reclaimLimit * 1) &&
        ((system fun _ => 0).run w [.reclaimStuck 3 ["t"] .done, .send 3]).any fun w' =>
          w'.now ≤ w.now + maxHeartbeatAge) = true)
  simp only [Bool.and_eq_true, Option.any_eq_true, decide_eq_true_eq] at hp
  obtain ⟨⟨⟨⟨m, hm, hstuck⟩, hended⟩, hcount⟩, w', h₂, hnow⟩ := hp
  obtain ⟨hmem, hid⟩ := Table.get?_eq_some.mp hm
  have hr := System.Reach.run (S := system fun _ => 0) (.init ⟨0, _, rfl⟩)
    (guarded_of_no_reclaim (by decide)) h₁
  have hwithin : w.Within 4 := Within.fresh.run (by decide) h₁
  have hdead := World.ended_of_check hwithin hended
  have hlive : ∀ pid k, w.Live pid k → k.message.taskId ≠ m.id := by
    intro pid k hk he
    have hend := hdead pid k hk.handling (by rw [he]; exact List.mem_singleton.mpr hid)
    rw [hk.2] at hend; cases hend
  have hguard : (system fun _ => 0).Guarded ReclaimsEnded w
      [.reclaimStuck 3 ["t"] .done, .send 3] :=
    ⟨hdead, fun _ _ => ⟨trivial, fun _ _ => trivial⟩⟩
  have hrel := reclaimed_in_time _ m w w' _ hr hguard h₂ hmem hstuck hlive hnow hcount
  rw [hid] at hrel
  exact ⟨w, w', h₁, h₂, hrel⟩

end FileExtractor
