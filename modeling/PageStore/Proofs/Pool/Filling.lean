-- Rows that are put into a table one after the other, whatever comes of each of them. Each
-- row that is taken goes to the first place without a row, so the places come in ascending
-- order, and each of them had no row before. A row that is refused is nowhere, and all
-- other rows of all tables stay.
import Mathlib.Data.List.Perm.Subperm
import PageStore.Proofs.Pool.Placing

namespace PageStore.Pool

/-- The row that is to be seen at a place. -/
def row? (p : Pool) (place : RecordId) : Option Row :=
  match p.seen place.page with
  | .ok page => page.row? place.slot
  | .error _ => none

/-- A place of a table at which there is no row, on one of its pages or behind them. -/
structure Empty (table : TableId) (file : TableFile) (p : Pool) (place : RecordId) : Prop where
  table : place.page.table = table
  slot : place.slot < file.layout.slots
  row : p.rowAt? place = none

section Rows

variable {p : Pool} {table : TableId} {file : TableFile} {place : RecordId}

/-- Values that are to be seen are a row of their table. -/
theorem row?_of_rowAt? (hp : Faithful p) (known : p.catalog.tableFile? place.page.table = some file)
    {fields : List Field} (h : p.rowAt? place = some fields) :
    p.row? place = some { schema := file.schema, fields, place := some place } := by
  rw [rowAt?_eq_seen] at h
  cases hseen : p.seen place.page with
  | error e =>
    rw [hseen] at h
    cases h
  | ok page =>
    rw [hseen] at h
    have hin := inFile_of_seen hp known hseen
    have hfields : page.fieldsAt place.slot = some fields := h
    rw [Pool.row?, hseen]
    change (page.fieldsAt place.slot).map (page.rowAt place.slot) = _
    rw [hfields, Option.map_some, Page.rowAt, hin.keyed, hin.columns]

/-- They are on one of the pages of its file. -/
theorem number_lt_of_rowAt? (hp : Faithful p) (known : p.catalog.tableFile? place.page.table = some file)
    {fields : List Field} (h : p.rowAt? place = some fields) : place.page.number < file.numPages p.disk := by
  rw [rowAt?_eq_seen] at h
  cases hseen : p.seen place.page with
  | error e =>
    rw [hseen] at h
    cases h
  | ok page =>
    rw [hseen] at h
    have hin := inFile_of_seen hp known hseen
    have hslot : place.slot < page.slots.length := Page.lt_of_fieldsAt h
    have hcount : page.slots.length = file.layout.slots := hin.slots
    exact hin.number_lt (pageSize_pos_of_slots (by omega))

end Rows

/-! ## One row -/

/-- What comes of putting a row into a table. -/
structure Puts (table : TableId) (file : TableFile) (row : Row) (p : Pool) (r : Except Error RecordId)
    (q : Pool) : Prop where
  catalog : q.catalog = p.catalog
  others : ∀ place, r ≠ .ok place → q.rowAt? place = p.rowAt? place
  empty : ∀ place, r = .ok place → Empty table file p place
  there : ∀ place, r = .ok place → q.rowAt? place = some row.fields
  /-- The places that are left without a row come behind it. -/
  first : ∀ place, r = .ok place → ∀ other, Empty table file q other → place.order other = .lt

section Insert

variable {p q base m : Pool} {table : TableId} {file : TableFile} {tx : TxId} {row : Row}
  {place : RecordId} {page : Page} {n : Nat}

theorem puts_nothing {e : Error} (catalog : q.catalog = p.catalog)
    (rows : ∀ place, q.rowAt? place = p.rowAt? place) : Puts table file row p (.error e) q where
  catalog := catalog
  others place _ := rows place
  empty _ h := nomatch h
  there _ h := nomatch h
  first _ h := nomatch h

theorem Lodged.puts (h : Lodged tx row place base q page m) (hp : Faithful p)
    (known : p.catalog.tableFile? table = some file) (hroom : FirstRoom table file p n base)
    (hpage : place.page = ⟨table, n⟩) : Puts table file row p (.ok place) q := by
  have hcatalog : base.catalog = p.catalog := by cases hroom <;> rfl
  have htable : place.page.table = table := congrArg PageId.table hpage
  have hothers : ∀ other, other ≠ place → q.rowAt? other = p.rowAt? other := by
    intro other hother
    rw [h.sets.rowAt? hother, h.came.rowAt?, hroom.rowAt? hp known]
  constructor
  case catalog =>
    have hstorage : q.storage = base.storage := h.sets.storage.trans h.came.storage
    exact (congrArg Storage.catalog hstorage).trans hcatalog
  case others =>
    intro other hother
    exact hothers other fun heq => hother (heq ▸ rfl)
  case empty =>
    rintro _ ⟨⟩
    have hslot := h.slot_lt (hroom.faithful hp known) (by rw [hcatalog, htable, known])
    exact ⟨htable, hslot, (hroom.rowAt? hp known place).symm.trans h.was_empty⟩
  case there =>
    rintro _ ⟨⟩
    exact h.there
  case first =>
    rintro _ ⟨⟩ other hempty
    have hne : other ≠ place := by
      rintro rfl
      have hrow := hempty.row
      rw [h.there] at hrow
      cases hrow
    exact h.order_empty hp known hroom hpage hempty.table hempty.slot
      ((hothers other hne).symm.trans hempty.row) hne

theorem insert_puts (hp : Sure p) (known : p.catalog.tableFile? table = some file) (tx : TxId) (row : Row) :
    (insert tx table row).Ends p (Puts table file row p) := by
  apply (insert_lodges hp tx table row).mono
  rintro (e | place) q h
  · rcases h with hsame | ⟨file', known', -, hsame⟩
    · exact puts_nothing (congrArg Storage.catalog hsame.storage) hsame.rowAt?
    · have hgrow : Quiet p.locks 0 p (p.withGrown file') := .grow p table file' known'
      have hgrown : q.catalog = (p.withGrown file').catalog := congrArg Storage.catalog hsame.storage
      have hcatalog : q.catalog = p.catalog := hgrown
      apply puts_nothing hcatalog
      intro place
      rw [hsame.rowAt?, (hgrow.shows hp.faithful place.page).rowAt?]
  · obtain ⟨file', n, base, page, m, known', hroom, hpage, hlodged⟩ := h
    obtain rfl : file = file' := Option.some.inj (known.symm.trans known')
    exact hlodged.puts hp.faithful known hroom hpage

end Insert

/-! ## One row after the other -/

/-- Puts rows into a table, one after the other. A row that is refused does not keep the others from being
put in. -/
def insertEach (tx : TxId) (table : TableId) : List Row → Pool → List (Except Error RecordId) × Pool
  | [], p => ([], p)
  | row :: rows, p =>
    let (r, m) := insert tx table row p
    let (rs, q) := insertEach tx table rows m
    (r :: rs, q)

theorem insertEach_append (tx : TxId) (table : TableId) (rows rows' : List Row) (p : Pool) :
    insertEach tx table (rows ++ rows') p =
      ((insertEach tx table rows p).1 ++ (insertEach tx table rows' (insertEach tx table rows p).2).1,
        (insertEach tx table rows' (insertEach tx table rows p).2).2) := by
  induction rows generalizing p with
  | nil => rfl
  | cons row rows ih => simp only [List.cons_append, insertEach, ih]

theorem length_insertEach (tx : TxId) (table : TableId) (rows : List Row) (p : Pool) :
    (insertEach tx table rows p).1.length = rows.length := by
  induction rows generalizing p with
  | nil => rfl
  | cons row rows ih => exact congrArg (· + 1) (ih _)

/-- The rows that were taken, with their places. -/
def taken (rows : List Row) (rs : List (Except Error RecordId)) : List (RecordId × Row) :=
  (rs.zip rows).filterMap fun e => e.1.toOption.map (·, e.2)

theorem taken_cons (row : Row) (rows : List Row) (r : Except Error RecordId) (rs : List (Except Error RecordId)) :
    taken (row :: rows) (r :: rs) = match r with
      | .ok place => (place, row) :: taken rows rs
      | .error _ => taken rows rs := by
  cases r <;> rfl

theorem mem_of_taken {rows : List Row} {rs : List (Except Error RecordId)} {e : RecordId × Row}
    (h : e ∈ taken rows rs) : e.2 ∈ rows := by
  obtain ⟨⟨r, row⟩, hmem, htaken⟩ := List.mem_filterMap.mp h
  obtain ⟨place, -, rfl⟩ := Option.map_eq_some_iff.mp htaken
  exact (List.of_mem_zip hmem).2

/-- Exactly these rows came into a table, each at a place of its own, and nothing else changed. -/
structure Fills (table : TableId) (file : TableFile) (rows : List (RecordId × Row)) (p q : Pool) : Prop where
  ascending : rows.Pairwise fun e e' => e.1.order e'.1 = .lt
  empty : ∀ e ∈ rows, Empty table file p e.1
  there : ∀ e ∈ rows, q.rowAt? e.1 = some e.2.fields
  others : ∀ place, (∀ e ∈ rows, e.1 ≠ place) → q.rowAt? place = p.rowAt? place

section Fills

variable {p m q : Pool} {table : TableId} {file : TableFile} {row : Row} {rows : List (RecordId × Row)}

theorem ne_of_order {place other : RecordId} (h : place.order other = .lt) : place ≠ other := by
  rintro rfl
  rw [RecordId.order_eq_lt_iff, PageId.order_eq_lt_iff] at h
  rcases h with (h | ⟨-, h⟩) | ⟨-, h⟩
  · exact Nat.lt_irrefl _ h
  · exact Nat.lt_irrefl _ h
  · exact Nat.lt_irrefl _ h

/-- A row that is refused adds nothing. -/
theorem Fills.refused {e : Error} (h : Puts table file row p (.error e) m) (hm : Fills table file rows m q) :
    Fills table file rows p q := by
  have hsame : ∀ place, m.rowAt? place = p.rowAt? place := fun place => h.others place (nomatch ·)
  refine ⟨hm.ascending, fun e he => ?_, hm.there, fun place hplace => ?_⟩
  · have hempty := hm.empty e he
    exact ⟨hempty.table, hempty.slot, (hsame e.1).symm.trans hempty.row⟩
  · rw [hm.others place hplace, hsame]

/-- A row that is taken stands in front of all that come later. -/
theorem Fills.taken {place : RecordId} (h : Puts table file row p (.ok place) m)
    (hm : Fills table file rows m q) : Fills table file ((place, row) :: rows) p q := by
  have hfirst : ∀ e ∈ rows, place.order e.1 = .lt := fun e he => h.first place rfl e.1 (hm.empty e he)
  constructor
  case ascending => exact List.pairwise_cons.mpr ⟨hfirst, hm.ascending⟩
  case empty =>
    rw [List.forall_mem_cons]
    refine ⟨h.empty place rfl, fun e he => ?_⟩
    have hempty := hm.empty e he
    have hne : (.ok place : Except Error RecordId) ≠ .ok e.1 := fun heq =>
      ne_of_order (hfirst e he) (Except.ok.inj heq)
    exact ⟨hempty.table, hempty.slot, (h.others e.1 hne).symm.trans hempty.row⟩
  case there =>
    rw [List.forall_mem_cons]
    refine ⟨?_, hm.there⟩
    rw [hm.others place fun e he => (ne_of_order (hfirst e he)).symm]
    exact h.there place rfl
  case others =>
    intro other hother
    obtain ⟨hne, hrest⟩ := List.forall_mem_cons.mp hother
    rw [hm.others other hrest]
    exact h.others other fun heq => hne (Except.ok.inj heq)

/-- Whoever can count the pages in the end can number those of the rows. -/
theorem Fills.numbered (h : Fills table file rows p q) (hq : Faithful q) (counted : q.storage.Counted)
    (known : q.catalog.tableFile? table = some file) :
    ∀ e ∈ rows, e.1.page.number < (file.numPagesWord q.disk).toNat := by
  intro e he
  have hpages := counted.numPages known
  have hlt := number_lt_of_rowAt? hq ((h.empty e he).table.symm ▸ known) (h.there e he)
  exact Nat.lt_of_lt_of_eq hlt hpages.symm

/-- No more rows come in than their pages have slots. -/
theorem Fills.length_le (h : Fills table file rows p q) {n : Nat} (below : ∀ e ∈ rows, e.1.page.number < n) :
    rows.length ≤ n * file.layout.slots := by
  let index (e : RecordId × Row) : Nat := e.1.page.number * file.layout.slots + e.1.slot
  -- the places are numbered page by page
  have hlt {e e'} (he : e ∈ rows) (hnumber : e.1.page.number < e'.1.page.number) : index e < index e' := by
    have hslot := (h.empty e he).slot
    have hpage := Nat.mul_le_mul_right file.layout.slots hnumber
    rw [Nat.succ_mul] at hpage
    dsimp only [index]
    omega
  have hascending : (rows.map index).Pairwise (· < ·) := by
    refine List.pairwise_map.mpr (h.ascending.imp_of_mem fun {e e'} he he' horder => ?_)
    have htable := (h.empty e he).table.trans (h.empty e' he').table.symm
    rw [RecordId.order_eq_lt_iff, PageId.order_eq_lt_iff] at horder
    rcases horder with (htables | ⟨-, hnumber⟩) | ⟨hpage, hslot⟩
    · exact absurd htables (htable ▸ Nat.lt_irrefl _)
    · exact hlt he hnumber
    · dsimp only [index]
      rw [hpage]
      omega
  have hsubset : rows.map index ⊆ List.range (n * file.layout.slots) := by
    refine List.forall_mem_map.mpr fun e he => List.mem_range.mpr ?_
    have hslot := (h.empty e he).slot
    have hpage := Nat.mul_le_mul_right file.layout.slots (below e he)
    rw [Nat.succ_mul] at hpage
    dsimp only [index]
    omega
  have hnodup : (rows.map index).Nodup := hascending.imp Nat.ne_of_lt
  have hlength := (List.subperm_of_subset hnodup hsubset).length_le
  rwa [List.length_map, List.length_range] at hlength

/-- All rows that are taken come in, and nothing else does. -/
theorem insertEach_fills {first : Pool} (hfirst : Sure first) (tx : TxId) {rows : List Row}
    (typed : ∀ row ∈ rows, row.Typed) {p : Pool} (reached : Undisturbed first p)
    (known : p.catalog.tableFile? table = some file) :
    Undisturbed first (insertEach tx table rows p).2 ∧
      (insertEach tx table rows p).2.catalog = p.catalog ∧
      Fills table file (Pool.taken rows (insertEach tx table rows p).1) p (insertEach tx table rows p).2 := by
  induction rows generalizing p with
  | nil =>
    exact ⟨reached, rfl, ⟨List.Pairwise.nil, fun _ he => (nomatch he), fun _ he => (nomatch he), fun _ _ => rfl⟩⟩
  | cons row rows ih =>
    obtain ⟨hrow, hrows⟩ := List.forall_mem_cons.mp typed
    have hputs : Puts table file row p (insert tx table row p).1 (insert tx table row p).2 :=
      insert_puts (reached.sure hfirst) known tx row
    have hreached : Undisturbed first (insert tx table row p).2 := reached.call (.insert tx table row) hrow
    obtain ⟨hend, hcatalog, hfills⟩ := ih hrows hreached (hputs.catalog ▸ known)
    rcases hinsert : insert tx table row p with ⟨r, m⟩
    simp only [hinsert] at hputs hend hcatalog hfills
    simp only [insertEach, hinsert, taken_cons]
    refine ⟨hend, hcatalog.trans hputs.catalog, ?_⟩
    cases r with
    | error e => exact Fills.refused hputs hfills
    | ok place => exact Fills.taken hputs hfills

end Fills

end PageStore.Pool
