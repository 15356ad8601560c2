import FileExtractor.Lib.Table

/-!
# Temporary files

A directory in which files are made under new names, written, read and unlinked by name. Every file
has the number of its creation (`inode`), and the directory keeps the numbers of the files that were
removed. The field `accounted` says that each file made so far is still there or was removed, once:
so when no file is left, each one was removed exactly once (`count_removed`).
-/

structure TempFile (β : Type) where
  name : String
  inode : Nat
  content : List β

structure TempDir (β : Type) where
  files : Rel.Table (@TempFile.name β)
  /-- The number of the files that were made. -/
  created : Nat
  removed : List Nat
  accounted : ∀ i,
    removed.count i + (files.rows.map (·.inode)).count i = if i < created then 1 else 0

namespace TempDir

open Rel

variable {β : Type}

def empty : TempDir β := ⟨.empty, 0, [], by simp [Table.empty]⟩

/-- Make an empty file; `none` if there is a file of the name. -/
def create? (d : TempDir β) (name : String) : Option (TempDir β) :=
  match h : d.files.insert? ⟨name, d.created, []⟩ with
  | none => none
  | some files => some {
      files := files
      created := d.created + 1
      removed := d.removed
      accounted := fun i => by
        have hi := d.accounted i
        rw [(Table.insert?_eq_some h).2, List.map_append, List.count_append, ← Nat.add_assoc, hi]
        by_cases hlt : i = d.created
        · simp [hlt]
        · have hne : d.created ≠ i := fun e => hlt e.symm
          simp only [List.map_cons, List.map_nil, List.count_cons, List.count_nil, beq_iff_eq, hne]
          grind }

/-- Write at the end of the file. -/
def append (d : TempDir β) (name : String) (bytes : List β) : TempDir β where
  files := d.files.modify (fun f => f.name = name)
    (fun f => { f with content := f.content ++ bytes }) fun _ => rfl
  created := d.created
  removed := d.removed
  accounted i := by
    have hi := d.accounted i
    simp only [Table.modify, List.map_map]
    rw [← hi]
    congr 2
    refine List.map_congr_left fun f _ => ?_
    simp only [Function.comp_apply]
    split <;> rfl

/-- Remove the file of the name. -/
def unlink (d : TempDir β) (name : String) : TempDir β where
  files := d.files.delete fun f => f.name = name
  created := d.created
  removed := d.removed ++ (d.files.rows.filter fun f => f.name = name).map (·.inode)
  accounted i := by
    have hi := d.accounted i
    have hsplit := ((d.files.rows.filter_append_perm fun f => decide (f.name = name)).map
      (·.inode)).count_eq i
    rw [List.map_append, List.count_append] at hsplit
    rw [← hi, List.count_append, ← hsplit, Nat.add_assoc]
    rfl

def content? (d : TempDir β) (name : String) : Option (List β) :=
  (d.files.get? name).map (·.content)

/-- There is no file. -/
def IsEmpty (d : TempDir β) : Prop := d.files.rows = []

/-- There is one file, of the name and the content. -/
def Only (d : TempDir β) (name : String) (content : List β) : Prop :=
  ∃ i, d.files.rows = [⟨name, i, content⟩]

variable {d d' : TempDir β} {name : String} {content : List β}

/-- **Without a file left**, each file that was made was removed exactly once. -/
theorem IsEmpty.count_removed (h : d.IsEmpty) (i : Nat) :
    d.removed.count i = if i < d.created then 1 else 0 := by
  have hi := d.accounted i
  rw [show d.files.rows = [] from h] at hi
  simpa using hi

theorem isEmpty_empty : (empty : TempDir β).IsEmpty := rfl

theorem IsEmpty.length_le (h : d.IsEmpty) : d.files.rows.length ≤ 1 := by
  rw [show d.files.rows = [] from h]
  exact Nat.zero_le _

theorem Only.length_le (h : d.Only name content) : d.files.rows.length ≤ 1 := by
  obtain ⟨i, hi⟩ := h
  rw [hi]
  exact Nat.le_refl _

theorem create?_eq_some (h : d.create? name = some d') :
    d'.files.rows = d.files.rows ++ [⟨name, d.created, []⟩] ∧ d'.created = d.created + 1 := by
  unfold create? at h
  split at h
  · cases h
  · next files hf =>
    cases h
    exact ⟨(Table.insert?_eq_some hf).2, rfl⟩

/-- Every name is new to an empty directory. -/
theorem IsEmpty.exists_create (h : d.IsEmpty) (name : String) :
    ∃ d', d.create? name = some d' ∧ d'.Only name [] := by
  have hnew : d.files.get? name = none := by
    unfold Table.get?
    rw [show d.files.rows = [] from h]
    rfl
  obtain ⟨files, hfiles⟩ :=
    Table.exists_insert (t := d.files) (r := ⟨name, d.created, []⟩) hnew
  have hcreate : ∃ d', d.create? name = some d' := by
    unfold create?
    split
    · next hn => rw [hn] at hfiles; cases hfiles
    · exact ⟨_, rfl⟩
  obtain ⟨d', hd'⟩ := hcreate
  refine ⟨d', hd', d.created, ?_⟩
  rw [(create?_eq_some hd').1, show d.files.rows = [] from h]
  rfl

theorem IsEmpty.create (h : d.IsEmpty) (hc : d.create? name = some d') : d'.Only name [] := by
  obtain ⟨d₁, hd₁, honly⟩ := h.exists_create name
  rw [hc] at hd₁
  cases hd₁
  exact honly

theorem Only.append (h : d.Only name content) (bytes : List β) :
    (d.append name bytes).Only name (content ++ bytes) := by
  obtain ⟨i, hi⟩ := h
  refine ⟨i, ?_⟩
  simp [TempDir.append, Table.modify, hi]

theorem Only.unlink (h : d.Only name content) : (d.unlink name).IsEmpty := by
  obtain ⟨i, hi⟩ := h
  simp [IsEmpty, TempDir.unlink, Table.delete, hi]

theorem Only.content? (h : d.Only name content) : d.content? name = some content := by
  obtain ⟨i, hi⟩ := h
  simp [TempDir.content?, Table.get?, hi]

end TempDir
