import FileExtractor.Frontend.StatsPanel
import FileExtractor.Properties.SelectionCounts

/-!
# What the modal shows

One calculation is asked for at a time. The counts in the modal are those of the files that were
selected at the click, whatever is selected now. The error of a calculation is in it only if the
calculation was asked for while the modal was there, with the keyboard on the button behind it: the
next calculation resets the error (`Calm`).
-/

namespace FileExtractor

open Lts

namespace StatsPanel

/-- The counts of the files with these ids, in some state of the tables and of the bucket. -/
def Counts (fileIds : List String) (r : CalculateStatsResult) : Prop :=
  ∃ (ids : List FileId) (files : FileTable) (bucket : String → Option Bytes),
    ids ≠ [] ∧ ids.Nodup ∧ fileIds = ids.map Uuid.text ∧
      CalculateStats.Exact (CalculateStats.concatenation files bucket ids) r

/-- The answers are those of the backend. -/
def FromBackend (s : StatsPanel) : Event → Prop
  | .session e => FilesSession.FromBackend s.session e
  | .calculated n res => ∀ fileIds, s.calculating[n]? = some fileIds →
      ∃ files bucket, CalculateStats.calculateStats files bucket fileIds = .ok res
  | _ => True

/-- No calculation is asked for while the modal is there. -/
def Covered (s : StatsPanel) (e : Event) : Prop :=
  FromBackend s e ∧ (e = .calculate → s.modal = false)

structure Sound (s : StatsPanel) : Prop where
  known : s.session.page.Known
  loading : s.statsLoading = true ↔ s.calculating ≠ []
  one : s.calculating.length ≤ 1
  asked : ∀ fileIds ∈ s.calculating, fileIds ≠ [] ∧ fileIds.Nodup ∧
    ∀ value ∈ fileIds, IsFileId value
  counts : ∀ r, s.stats = some r → Counts s.shownFor r
  quiet : s.calculating ≠ [] → s.statsError = none

/-- While the modal is there no calculation is under way, and none has failed. -/
def Calm (s : StatsPanel) : Prop := s.modal = true → s.calculating = [] ∧ s.statsError = none

variable {s s' : StatsPanel} {e : Event}

/-- The answered request is the only one. -/
theorem Sound.answered (h : s.Sound) {n : Nat} {fileIds : List String}
    (hn : s.calculating[n]? = some fileIds) : s.calculating.eraseIdx n = [] := by
  have hone := h.one
  obtain ⟨hlt, -⟩ := List.getElem?_eq_some_iff.mp hn
  refine List.length_eq_zero_iff.mp ?_
  rw [List.length_eraseIdx_of_lt hlt]
  omega

/-- The ids of a request are counted. -/
theorem counts_of_answer {fileIds : List String} {r : CalculateStatsResult}
    {files : FileTable} {bucket : String → Option Bytes}
    (hask : fileIds ≠ [] ∧ fileIds.Nodup ∧ ∀ value ∈ fileIds, IsFileId value)
    (hr : CalculateStats.calculateStats files bucket fileIds = .ok r) : Counts fileIds r := by
  obtain ⟨hne, hnodup, hids⟩ := hask
  obtain ⟨ids, hn, rfl, hexact⟩ := exact_of_known hids hnodup hr
  exact ⟨ids, files, bucket, fun h => hne (by rw [h]; rfl), hn, rfl, hexact⟩

/-- **Every step keeps it.** -/
theorem Sound.step (h : s.Sound) (hok : FromBackend s e) (hst : sessions.step s e = some s') :
    s'.Sound := by
  cases e with
  | session e =>
    obtain ⟨session, hsession, hs'⟩ := Option.bind_eq_some_iff.mp hst
    cases hs'
    exact ⟨FilesSession.known_step h.known hok hsession, h.loading, h.one, h.asked, h.counts,
      h.quiet⟩
  | calculate =>
    simp only [sessions, StatsPanel.step] at hst
    split at hst
    · next hbutton =>
      cases hst
      simp only [button, Bool.and_eq_true, Bool.not_eq_true', decide_eq_true_eq] at hbutton
      obtain ⟨⟨-, hselected⟩, hidle⟩ := hbutton
      have hnil : s.calculating = [] := by
        by_contra hne
        rw [h.loading.mpr hne] at hidle; cases hidle
      rw [handleCalculateStats, if_neg hselected]
      refine ⟨h.known, ⟨fun _ => by simp, fun _ => rfl⟩, by simp [hnil], fun fileIds hf => ?_,
        h.counts, fun _ => rfl⟩
      rw [hnil] at hf
      rw [List.mem_singleton.mp hf]
      exact ⟨hselected, FilesPage.nodup_selectedFileIds _ h.known.all, h.known.selected⟩
    · cases hst
  | calculated n res =>
    obtain ⟨fileIds, hn, hs'⟩ := Option.bind_eq_some_iff.mp hst
    cases hs'
    have hmem := List.mem_of_getElem? hn
    have hnil := h.answered hn
    obtain ⟨files, bucket, hr⟩ := hok fileIds hn
    have herror : s.statsError = none := h.quiet (List.ne_nil_of_mem hmem)
    refine ⟨h.known, ?_, ?_, fun ids hi => ?_, fun r he => ?_, fun _ => herror⟩
    · exact ⟨fun hl => (by cases hl), fun hne => absurd hnil hne⟩
    · show (s.calculating.eraseIdx n).length ≤ 1
      rw [hnil]; exact Nat.zero_le 1
    · exact h.asked ids (List.mem_of_mem_eraseIdx hi)
    · cases he
      exact counts_of_answer (h.asked fileIds hmem) hr
  | failed n message =>
    obtain ⟨fileIds, hn, hs'⟩ := Option.bind_eq_some_iff.mp hst
    cases hs'
    have hnil := h.answered hn
    refine ⟨h.known, ?_, ?_, fun ids hi => ?_, h.counts, fun hne => absurd hnil hne⟩
    · exact ⟨fun hl => (by cases hl), fun hne => absurd hnil hne⟩
    · show (s.calculating.eraseIdx n).length ≤ 1
      rw [hnil]; exact Nat.zero_le 1
    · exact h.asked ids (List.mem_of_mem_eraseIdx hi)
  | close =>
    simp only [sessions, StatsPanel.step] at hst
    split at hst
    · cases hst
      exact ⟨h.known, h.loading, h.one, h.asked, fun r he => (by cases he), fun _ => rfl⟩
    · cases hst

theorem Calm.step (h : s.Calm) (hs : s.Sound) (hok : Covered s e)
    (hst : sessions.step s e = some s') : s'.Calm := by
  intro hm
  cases e with
  | session e =>
    obtain ⟨session, -, hs'⟩ := Option.bind_eq_some_iff.mp hst
    cases hs'
    exact h hm
  | calculate =>
    simp only [sessions, StatsPanel.step] at hst
    split at hst
    · cases hst
      have hmodal : s.modal = true := by
        unfold handleCalculateStats at hm
        split at hm <;> exact hm
      rw [hok.2 rfl] at hmodal; cases hmodal
    · cases hst
  | calculated n res =>
    obtain ⟨fileIds, hn, hs'⟩ := Option.bind_eq_some_iff.mp hst
    cases hs'
    exact ⟨hs.answered hn, hs.quiet (List.ne_nil_of_mem (List.mem_of_getElem? hn))⟩
  | failed n message =>
    obtain ⟨fileIds, hn, hs'⟩ := Option.bind_eq_some_iff.mp hst
    cases hs'
    have hnil := (h hm).1
    rw [hnil] at hn; cases hn
  | close =>
    simp only [sessions, StatsPanel.step] at hst
    split at hst
    · cases hst; cases hm
    · cases hst

/-- A calculation that is asked for while the modal is there fails: the error is in the modal. -/
example :
    (sessions.run mount [.session (.answer ⟨1, 20⟩ [⟨"a"⟩] 1), .session (.selectOne "a" true),
      .calculate, .calculated 0 ⟨∅, ∅⟩, .calculate, .failed 0 "e"]).map
        (fun s => (s.modal, s.statsError)) = some (true, some "e") := by
  decide +kernel

end StatsPanel

end FileExtractor
