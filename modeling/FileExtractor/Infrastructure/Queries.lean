import FileExtractor.Lib.Fallible
import FileExtractor.Lib.Paging
import FileExtractor.Infrastructure.Database
import Mathlib.Order.WithBot

/-!
# Queries over `files` and over `download_tasks`

`list` and `count_by_status` of `SQLAlchemyFileRepository`, and `list_tasks` of
`SQLAlchemyTaskRepository`. A query that is ordered by `created_at`
alone leaves the order of rows with one `created_at` to the database, so `list` is given the rows
in the order of its query (`Paging.Arranges`); so is `list_tasks`, whose key is `started_at`. The
database refuses arguments of a query: a text with a NUL, and an `OFFSET` or `LIMIT` that is
negative or no `bigint`.
-/

namespace FileExtractor

/-- `FileFilters`. -/
structure FileFilters where
  status : Option String := none
  filenameContains : Option String := none

/-- The texts that the queries of `list` are given. -/
def FileFilters.texts (filters : FileFilters) : List String :=
  filters.status.toList ++ filters.filenameContains.toList

/-- `PaginatedFiles`. -/
structure PaginatedFiles where
  items : List File
  total : Nat
  page : Int
  perPage : Int
  deriving DecidableEq

/-- The pattern matching of `LIKE`: `%` is any text, `_` any character, and the character behind a
backslash is itself. -/
def like : List Char → List Char → Bool
  | [], cs => cs.isEmpty
  | '%' :: p, cs => cs.tails.any (like p)
  | '_' :: _, [] => false
  | '_' :: p, _ :: cs => like p cs
  | ['\\'], _ => false
  | '\\' :: _ :: _, [] => false
  | '\\' :: c :: p, d :: cs => c = d && like p cs
  | _ :: _, [] => false
  | c :: p, d :: cs => c = d && like p cs

namespace FileModel

/-- `FileModel.status == status`. -/
def hasStatus (status : String) (m : FileModel) : Bool := m.status.name = status

/-- `FileModel.filename.contains(text)`: `filename LIKE '%' || text || '%'`. -/
def filenameContains (text : String) (m : FileModel) : Bool :=
  like ('%' :: text.toList ++ ['%']) m.filename.toList

/-- The hash of the row, if it has one that is not empty, is one that `FileHash` accepts. -/
def hashAccepted (m : FileModel) : Bool :=
  m.hash.all fun value => value = "" || sha256HexPattern value.toList

end FileModel

/-- The conditions of a query, joined by `AND`. -/
abbrev Where := List (FileModel → Bool)

def Where.holds (conditions : Where) (m : FileModel) : Bool := conditions.all fun p => p m

/-- A condition for a filter that is given; an empty string is none. -/
def Where.filtered (conditions : Where) (p : String → FileModel → Bool) : Option String → Where
  | none => conditions
  | some value => if value = "" then conditions else conditions ++ [p value]

namespace FileTable

open Paging Fallible

/-- The conditions of `query` and of `count_query` in `list`. -/
def conditions : Option FileFilters → Where × Where
  | none => ([], [])
  | some filters =>
    let query := Where.filtered [] FileModel.hasStatus filters.status
    let countQuery := Where.filtered [] FileModel.hasStatus filters.status
    (query.filtered FileModel.filenameContains filters.filenameContains,
      countQuery.filtered FileModel.filenameContains filters.filenameContains)

/-- The rows of the query of `list`. -/
def matching (files : FileTable) (filters : Option FileFilters) : List FileModel :=
  files.rows.filter (conditions filters).1.holds

/-- The result of the count query of `list`. -/
def total (files : FileTable) (filters : Option FileFilters) : Nat :=
  files.rows.countP (conditions filters).2.holds

/-- A text has a NUL, which no text of the database has. -/
def hasNul (value : String) : Bool := value.toList.any fun c => c.toNat = 0

/-- `count_query` with its arguments. -/
def countQuery (files : FileTable) (filters : Option FileFilters) : Except Exn Nat :=
  if (filters.toList.flatMap FileFilters.texts).any hasNul then
    .error (.other "invalid byte sequence for encoding \"UTF8\": 0x00")
  else .ok (files.total filters)

/-- An integer argument of a query. -/
def bigint (value : Int) : Except Exn Int :=
  if -2 ^ 63 ≤ value ∧ value < 2 ^ 63 then .ok value
  else .error (.other "value out of int64 range")

/-- `LIMIT limit OFFSET offset`; the database accepts no negative numbers. -/
def offsetLimit (offset limit : Int) (rows : List FileModel) : Except Exn (List FileModel) := do
  let limit ← bigint limit
  let offset ← bigint offset
  if offset < 0 then .error (.other "OFFSET must not be negative")
  else if limit < 0 then .error (.other "LIMIT must not be negative")
  else .ok ((rows.drop offset.toNat).take limit.toNat)

/-- `list`, when its query finds the rows in the order `rows`. -/
def list (files : FileTable) (rows : List FileModel) (filters : Option FileFilters)
    (page perPage : Int) : Except Exn PaginatedFiles := do
  let total ← files.countQuery filters
  let models ← offsetLimit ((page - 1) * perPage) perPage rows
  let items ← models.mapM FileModel.toDomain
  return { items := items, total := total, page := page, perPage := perPage }

/-- `count_by_status`; an empty string counts all rows. -/
def countByStatus (files : FileTable) (status : String) : Nat :=
  if status = "" then files.rows.length else files.rows.countP (FileModel.hasStatus status)

theorem conditions_fst (filters : Option FileFilters) :
    (conditions filters).1 = (conditions filters).2 := by
  cases filters <;> rfl

/-- Both queries of `list` select the same rows. -/
theorem total_eq (files : FileTable) (filters : Option FileFilters) :
    files.total filters = (files.matching filters).length := by
  rw [total, matching, conditions_fst, List.countP_eq_length_filter]

theorem nodup_matching (files : FileTable) (filters : Option FileFilters) :
    (files.matching filters).Nodup := (List.Nodup.of_map _ files.nodup).filter _

/-- The database takes the arguments of the queries of `list`. -/
structure Accepted (filters : Option FileFilters) (page perPage : Int) : Prop where
  texts : ∀ value ∈ filters.toList.flatMap FileFilters.texts, hasNul value = false
  offset : 0 ≤ (page - 1) * perPage ∧ (page - 1) * perPage < 2 ^ 63
  limit : 0 ≤ perPage ∧ perPage < 2 ^ 63

instance (filters : Option FileFilters) (page perPage : Int) :
    Decidable (Accepted filters page perPage) :=
  decidable_of_iff ((∀ value ∈ filters.toList.flatMap FileFilters.texts, hasNul value = false) ∧
      (0 ≤ (page - 1) * perPage ∧ (page - 1) * perPage < 2 ^ 63) ∧
      0 ≤ perPage ∧ perPage < 2 ^ 63)
    ⟨fun h => ⟨h.1, h.2.1, h.2.2⟩, fun h => ⟨h.texts, h.offset, h.limit⟩⟩

theorem countQuery_eq_ok {files : FileTable} {filters : Option FileFilters} {total : Nat} :
    files.countQuery filters = .ok total ↔
      (∀ value ∈ filters.toList.flatMap FileFilters.texts, hasNul value = false) ∧
        total = files.total filters := by
  unfold countQuery
  split
  · next h =>
    obtain ⟨value, hv, hn⟩ := List.any_eq_true.mp h
    refine ⟨fun e => (by cases e), fun ⟨hno, _⟩ => ?_⟩
    rw [hno value hv] at hn
    cases hn
  · next h =>
    have hno := List.any_eq_false.mp (Bool.eq_false_of_not_eq_true h)
    refine ⟨fun e => ⟨fun value hv => Bool.eq_false_of_not_eq_true (hno value hv),
      (Except.ok.inj e).symm⟩, fun ⟨_, he⟩ => ?_⟩
    rw [he]

theorem bigint_eq_ok {value result : Int} :
    bigint value = .ok result ↔ (-2 ^ 63 ≤ value ∧ value < 2 ^ 63) ∧ result = value := by
  unfold bigint
  split
  · next h => exact ⟨fun e => ⟨h, (Except.ok.inj e).symm⟩, fun ⟨_, he⟩ => by rw [he]⟩
  · next h => exact ⟨fun e => (by cases e), fun ⟨hv, _⟩ => absurd hv h⟩

theorem offsetLimit_eq_ok {offset limit : Int} {rows models : List FileModel} :
    offsetLimit offset limit rows = .ok models ↔
      (0 ≤ offset ∧ offset < 2 ^ 63) ∧ (0 ≤ limit ∧ limit < 2 ^ 63) ∧
        models = (rows.drop offset.toNat).take limit.toNat := by
  unfold offsetLimit
  constructor
  · intro h
    obtain ⟨l, hl, hrest⟩ := bind_eq_ok.mp h
    obtain ⟨hlimit, rfl⟩ := bigint_eq_ok.mp hl
    obtain ⟨o, ho, hwindow⟩ := bind_eq_ok.mp hrest
    obtain ⟨hoffset, rfl⟩ := bigint_eq_ok.mp ho
    split at hwindow
    · cases hwindow
    split at hwindow
    · cases hwindow
    · next hno hnl =>
      exact ⟨⟨Int.not_lt.mp hno, hoffset.2⟩, ⟨Int.not_lt.mp hnl, hlimit.2⟩,
        (Except.ok.inj hwindow).symm⟩
  · rintro ⟨ho, hl, rfl⟩
    refine bind_eq_ok.mpr ⟨limit, bigint_eq_ok.mpr ⟨⟨by omega, hl.2⟩, rfl⟩, ?_⟩
    refine bind_eq_ok.mpr ⟨offset, bigint_eq_ok.mpr ⟨⟨by omega, ho.2⟩, rfl⟩, ?_⟩
    rw [if_neg (Int.not_lt.mpr ho.1), if_neg (Int.not_lt.mpr hl.1)]

/-- `list` answers when the arguments are accepted and each row of the page can be read. -/
theorem list_eq_ok {files : FileTable} {filters : Option FileFilters} {rows : List FileModel}
    {page perPage : Int} {result : PaginatedFiles} :
    files.list rows filters page perPage = .ok result ↔
      Accepted filters page perPage ∧ ∃ items,
        ((rows.drop ((page - 1) * perPage).toNat).take perPage.toNat).mapM
            FileModel.toDomain = .ok items ∧
          result = { items := items, total := files.total filters, page := page,
                     perPage := perPage } := by
  constructor
  · intro h
    obtain ⟨total, ht, hquery⟩ := bind_eq_ok.mp h
    obtain ⟨htexts, rfl⟩ := countQuery_eq_ok.mp ht
    obtain ⟨models, hm, hread⟩ := bind_eq_ok.mp hquery
    obtain ⟨hoffset, hlimit, rfl⟩ := offsetLimit_eq_ok.mp hm
    obtain ⟨items, hitems, hres⟩ := bind_eq_ok.mp hread
    exact ⟨⟨htexts, hoffset, hlimit⟩, items, hitems, (Except.ok.inj hres).symm⟩
  · rintro ⟨h, items, hitems, rfl⟩
    exact bind_eq_ok.mpr ⟨_, countQuery_eq_ok.mpr ⟨h.texts, rfl⟩, bind_eq_ok.mpr
      ⟨_, offsetLimit_eq_ok.mpr ⟨h.offset, h.limit, rfl⟩, bind_eq_ok.mpr ⟨items, hitems, rfl⟩⟩⟩

/-- The rows of page `k`, counted from zero. -/
theorem window_page (n k : Nat) (rows : List FileModel) :
    (rows.drop (((k : Int) + 1 - 1) * n).toNat).take (n : Int).toNat = page n k rows := by
  rw [Int.add_sub_cancel, ← Int.natCast_mul]
  rfl

end FileTable

/-- `order_by(started_at.desc())`: in descending order `NULL` comes first. -/
def DownloadTaskModel.startedKey (m : DownloadTaskModel) : WithTop Time := m.startedAt

/-- `list_tasks`, when its query finds the rows in the order `rows`. -/
def TaskTable.listTasks (rows : List DownloadTaskModel) (limit offset : Nat) :
    List DownloadTask :=
  ((rows.drop offset).take limit).map DownloadTaskModel.toDomain

example : like "%a\\%_%".toList "xa%b".toList = true := by decide

end FileExtractor
