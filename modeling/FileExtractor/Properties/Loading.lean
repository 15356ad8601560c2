import FileExtractor.Frontend.FilesSession
import FileExtractor.Lib.Inevitable

/-!
# The loads come to rest

The loader is shown only while a request is in flight, and a page at rest shows the answer to a
request for its own number and size, or an error (`FilesSession.Sound`).

A page comes to rest when every request in flight asks for the same. But two different ones do not
cancel each other: the answer to the older one sets the page back, which starts it again, and then
comes the answer to the other one. As long as the answers come in the order of the requests, this
never ends (`loads_settle_iff`).
-/

namespace FileExtractor

open Lts

/-- A number and a size that `get_files` gives a page for. -/
def Load.Valid (r : Load) : Prop := 1 ≤ r.page ∧ r.perPage ∈ FilesSession.sizes

namespace FilesSession

variable {s s' : FilesSession} {e : Event} {page : FilesPage}

/-! ## What the page shows -/

/-- The page shows an answer to a request for its number and size. -/
def Shows (s : FilesSession) : Prop :=
  ∃ res, s.answered = some res ∧ s.page.files = res.items ∧ s.page.total = res.total ∧
    res.page = s.page.page ∧ res.perPage = s.page.perPage

structure Sound (s : FilesSession) : Prop where
  asked : ∀ r ∈ s.inFlight, r.Valid
  valid : s.current.Valid
  loader : s.page.loading = true → s.inFlight ≠ []
  shows : s.current ∈ s.inFlight ∨ s.Shows ∨ s.page.error.isSome

/-- The effect starts a request for what has changed. -/
theorem Sound.loadFiles {s : FilesSession} (ha : ∀ r ∈ s.inFlight, r.Valid)
    (hv : s.current.Valid) : s.loadFiles.Sound where
  asked r hr := by
    rcases List.mem_append.mp hr with hr | hr
    · exact ha r hr
    · rw [List.mem_singleton.mp hr]; exact hv
  valid := hv
  loader _ := by simp [FilesSession.loadFiles]
  shows := .inl (List.mem_append_right _ (List.mem_singleton_self _))

theorem Sound.mount : FilesSession.mount.Sound :=
  .loadFiles (fun r hr => by cases hr) ⟨Nat.le_refl 1, by decide⟩

/-- A render: the changes of the page and of its size are seen by the effect. -/
theorem Sound.render (ha : ∀ r ∈ s.inFlight, r.Valid)
    (hv : (Load.mk page.page page.perPage).Valid)
    (hl : page.loading = true → s.inFlight ≠ [])
    (hs : page.page = s.page.page ∧ page.perPage = s.page.perPage →
      s.current ∈ s.inFlight ∨ { s with page := page }.Shows ∨ page.error.isSome) :
    (s.render page).Sound := by
  by_cases h : page.page = s.page.page ∧ page.perPage = s.page.perPage
  · rw [render_same h]
    refine ⟨ha, hv, hl, ?_⟩
    have hc : current { s with page := page } = s.current := by simp [current, h.1, h.2]
    rw [hc]
    exact hs h
  · rw [render_changed fun e => h (by simpa [current] using e)]
    exact .loadFiles ha hv

theorem Sound.step (h : s.Sound) (hst : sessions.step s e = some s') : s'.Sound := by
  obtain ⟨ha, hv, hl, hs⟩ := h
  have erased : ∀ (load : Load), ∀ r ∈ s.inFlight.erase load, r.Valid :=
    fun load r hr => ha r (List.mem_of_mem_erase hr)
  -- an action that changes the selection only
  have selected : ∀ {selection : SelectedFiles},
      (s.render { s.page with selection := selection }).Sound := by
    intro selection
    rw [@render_same s { s.page with selection := selection } ⟨rfl, rfl⟩]
    exact ⟨ha, hv, hl, hs⟩
  cases e with
  | answer load items total =>
    simp only [sessions, FilesSession.step] at hst
    split at hst
    · next hmem =>
      cases hst
      refine .render (erased load) (ha load hmem) (fun hn => by cases hn) fun _ => ?_
      exact .inr (.inl ⟨_, rfl, rfl, rfl, rfl, rfl⟩)
    · cases hst
  | fail load message =>
    simp only [sessions, FilesSession.step] at hst
    split at hst
    · cases hst
      exact .render (erased load) hv (fun hn => by cases hn) fun _ => .inr (.inr rfl)
    · cases hst
  | selectPage checked => cases hst; exact selected
  | selectOne fileId checked => cases hst; exact selected
  | pageChange newPage =>
    cases hst
    show (s.render (s.page.handlePageChange newPage)).Sound
    unfold FilesPage.handlePageChange
    split
    · next hn =>
      refine .render ha ⟨?_, hv.2⟩ hl fun h => ?_
      · show 1 ≤ newPage.toNat
        omega
      · rcases hs with hs | ⟨res, h₁, h₂, h₃, h₄, h₅⟩ | hs
        · exact .inl hs
        · exact .inr (.inl ⟨res, h₁, h₂, h₃, h₄.trans h.1.symm, h₅⟩)
        · exact .inr (.inr hs)
    · rw [render_same ⟨rfl, rfl⟩]
      exact ⟨ha, hv, hl, hs⟩
  | perPageChange newPerPage =>
    simp only [sessions, FilesSession.step] at hst
    split at hst
    · next hmem =>
      cases hst
      refine .render ha ⟨Nat.le_refl 1, hmem⟩ hl fun h => ?_
      rcases hs with hs | ⟨res, h₁, h₂, h₃, h₄, h₅⟩ | hs
      · exact .inl hs
      · exact .inr (.inl ⟨res, h₁, h₂, h₃, h₄.trans h.1.symm, h₅.trans h.2.symm⟩)
      · exact .inr (.inr hs)
    · cases hst

/-! ## Answers in order -/

/-- The session goes on with the answer to the oldest request. -/
def OldestAnswered (s : FilesSession) : Event → Prop
  | .answer load _ _ => s.inFlight.head? = some load
  | _ => False

/-- The last request is for what the page asks for, and another one is in flight. -/
structure Unsettled (s : FilesSession) : Prop where
  last : s.inFlight.getLast? = some s.current
  other : ∃ r ∈ s.inFlight, r ≠ s.current

/-- The answer to the oldest request: its load is done, or it is started again. -/
theorem oldest_cases (hok : s.OldestAnswered e) (hst : sessions.step s e = some s') :
    ∃ load rest, s.inFlight = load :: rest ∧ s'.current = load ∧
      s'.inFlight = if load = s.current then rest else rest ++ [load] := by
  cases e with
  | answer load items total =>
    obtain ⟨rest, hrest⟩ : ∃ rest, s.inFlight = load :: rest := by
      cases h : s.inFlight with
      | nil => simp [OldestAnswered, h] at hok
      | cons r rest => simp only [OldestAnswered, h, List.head?_cons, Option.some.injEq] at hok
                       exact ⟨rest, by rw [hok]⟩
    let s₁ : FilesSession := { s with
      inFlight := rest, answered := some ⟨items, total, load.page, load.perPage⟩ }
    let page := s.page.step (.loaded ⟨items, total, load.page, load.perPage⟩)
    have hs' : s' = s₁.render page := by
      simp only [sessions, FilesSession.step, hrest, List.mem_cons_self, if_true,
        Option.some.injEq, List.erase_cons_head] at hst
      exact hst.symm
    refine ⟨load, rest, hrest, ?_⟩
    by_cases hc : load = s.current
    · rw [if_pos hc, hs', @render_same s₁ page
        ⟨congrArg Load.page hc, congrArg Load.perPage hc⟩]
      exact ⟨rfl, rfl⟩
    · rw [if_neg hc, hs', @render_changed s₁ page hc]
      exact ⟨rfl, rfl⟩
  | _ => cases hok

/-- **One answer**: the page is set back to an older request, or its own one is not the last. -/
theorem Unsettled.step (h : s.Unsettled) (hok : s.OldestAnswered e)
    (hst : sessions.step s e = some s') : s'.Unsettled := by
  obtain ⟨hlast, r, hr, hne⟩ := h
  obtain ⟨load, rest, hrest, hc, hf⟩ := oldest_cases hok hst
  rw [hrest] at hlast hr
  by_cases hload : load = s.current
  · rw [if_pos hload] at hf
    have hr' : r ∈ rest := (List.mem_cons.mp hr).resolve_left fun e => hne (e.trans hload)
    refine ⟨?_, r, by rw [hf]; exact hr', by rw [hc, hload]; exact hne⟩
    rw [hf, hc, hload, ← hlast, List.getLast?_cons]
    obtain ⟨x, hx⟩ : ∃ x, rest.getLast? = some x :=
      ⟨_, List.getLast?_eq_some_getLast (List.ne_nil_of_mem hr')⟩
    rw [hx]; rfl
  · rw [if_neg hload] at hf
    have hmem : s.current ∈ rest :=
      (List.mem_cons.mp (List.mem_of_getLast? hlast)).resolve_left fun e => hload e.symm
    refine ⟨by rw [hf, hc]; simp, s.current, ?_, fun e => hload (hc ▸ e.symm)⟩
    rw [hf]; exact List.mem_append_left _ hmem

/-- Equal requests are answered one by one. -/
theorem settles_of_equal (h : ∀ r ∈ s.inFlight, r = s.current) :
    ∃ es s', sessions.Guarded OldestAnswered s es ∧ sessions.run s es = some s' ∧
      s'.inFlight = [] := by
  generalize hl : s.inFlight = l at h
  induction l generalizing s with
  | nil => exact ⟨[], s, trivial, rfl, hl⟩
  | cons load rest ih =>
    have hok : s.OldestAnswered (.answer load [] 0) := by simp [OldestAnswered, hl]
    obtain ⟨s₁, hst⟩ : ∃ s₁, sessions.step s (.answer load [] 0) = some s₁ :=
      ⟨_, if_pos (by rw [hl]; exact List.mem_cons_self)⟩
    obtain ⟨load', rest', hrest, hc, hf⟩ := oldest_cases hok hst
    rw [hl] at hrest
    cases hrest
    have hload := h load List.mem_cons_self
    rw [if_pos hload] at hf
    obtain ⟨es, s', hg, hrun, hnil⟩ := ih hf fun r hr => by
      rw [hc, hload]; exact h r (List.mem_cons_of_mem load hr)
    refine ⟨_ :: es, s', ⟨hok, fun s₂ hs₂ => ?_⟩, ?_, hnil⟩
    · rw [hst] at hs₂; cases hs₂; exact hg
    · rw [System.run_cons, hst]; exact hrun

end FilesSession

/-- **The page is sound**: in every session, with any answers in any order, the loader is shown only
while a request is in flight, every request is for a page from 1 on and for one of the sizes, and
when nothing is in flight and there is no error, the files and the total that are shown are those of
an answer to a request for the number and the size that are shown. -/
theorem files_page_sound : FilesSession.sessions.Invariant System.free fun s =>
    (s.page.loading = true → s.inFlight ≠ []) ∧ (∀ r ∈ s.inFlight, r.Valid) ∧
    (s.inFlight = [] → s.page.error = none → s.Shows) := by
  have hinv : FilesSession.sessions.Invariant System.free FilesSession.Sound :=
    System.Reach.induct (fun s hs => hs ▸ .mount) fun s e s' _ h _ hst => h.step hst
  intro s hr
  obtain ⟨ha, -, hl, hs⟩ := hinv s hr
  refine ⟨hl, ha, fun hnil herr => ?_⟩
  rcases hs with hs | hs | hs
  · rw [hnil] at hs; cases hs
  · exact hs
  · rw [herr] at hs; cases hs

/-- **Loads come to rest if and only if they are equal.** When the last request in flight is for the
number and the size that the page asks for, as after every action of the user that starts one, and
the answers come in the order of the requests, all of them successful and each rendered before the
next comes: the page can come to rest if
all requests in flight are equal; otherwise, after any number of answers, some are in flight. -/
theorem loads_settle_iff (s : FilesSession) (hlast : s.inFlight.getLast? = some s.current) :
    ((∃ es s', FilesSession.sessions.Guarded FilesSession.OldestAnswered s es ∧
      FilesSession.sessions.run s es = some s' ∧ s'.inFlight = []) ↔
        ∀ r ∈ s.inFlight, r = s.current) ∧
    ((∃ r ∈ s.inFlight, r ≠ s.current) → ∀ es s',
      FilesSession.sessions.Guarded FilesSession.OldestAnswered s es →
      FilesSession.sessions.run s es = some s' → s'.inFlight ≠ []) := by
  have hnever : (∃ r ∈ s.inFlight, r ≠ s.current) → ∀ es s',
      FilesSession.sessions.Guarded FilesSession.OldestAnswered s es →
      FilesSession.sessions.run s es = some s' → s'.inFlight ≠ [] := by
    intro hother es s' hg hrun hnil
    have h : s'.Unsettled := System.run_keeps
      (fun s e s' h hok hst => FilesSession.Unsettled.step h hok hst) ⟨hlast, hother⟩ hg hrun
    obtain ⟨-, r, hr, -⟩ := h
    rw [hnil] at hr; cases hr
  refine ⟨⟨fun ⟨es, s', hg, hrun, hnil⟩ r hr => ?_, FilesSession.settles_of_equal⟩, hnever⟩
  by_contra hne
  exact hnever ⟨r, hr, hne⟩ es s' hg hrun hnil

/-- The size is changed before the first load is answered. -/
theorem resized_never_settles : ∃ s,
    FilesSession.sessions.run .mount [.perPageChange 50] = some s ∧
      ¬ ∃ es s', FilesSession.sessions.Guarded FilesSession.OldestAnswered s es ∧
        FilesSession.sessions.run s es = some s' ∧ s'.inFlight = [] := by
  refine ⟨_, rfl, fun h => ?_⟩
  exact absurd ((loads_settle_iff _ (by decide)).1.mp h ⟨1, 20⟩ (by decide)) (by decide)

end FileExtractor
