-- Pages of tables in their files. As long as each table has a file of its own, a
-- page that is written is the page that is read from then on, and no other page
-- of any table changes.
import PageStore.Proofs.Storage.Files

namespace PageStore.Storage

/-- Each table has its own file, and the file is there. -/
structure OwnFiles (s : Storage) : Prop where
  keyed : ∀ table file, s.catalog.tableFile? table = some file → file.table = table
  there : ∀ table file, s.catalog.tableFile? table = some file → file.file < s.disk.files.length
  apart : ∀ table file other file', s.catalog.tableFile? table = some file →
    s.catalog.tableFile? other = some file' → file.file = file'.file → table = other

/-- One table of whole numbers, whose file is empty. -/
def oneTable : Storage :=
  let file : TableFile :=
    { table := 1, schema := ⟨[⟨"n", .int⟩]⟩, pages := ⟨"numbers.dat", 64⟩, file := 0 }
  { catalog :=
      { onDisk := false, pageSize := 64
        tables := Assoc.empty.insert 1 { name := "numbers", file, storedAs := none }
        names := Assoc.empty.insert "numbers" 1 }
    disk := { directory := "", names := Assoc.empty.insert "numbers.dat" 0, files := [[]] } }

theorem eq_of_oneTable {table : TableId} {file : TableFile}
    (known : oneTable.catalog.tableFile? table = some file) :
    table = 1 ∧ file.table = 1 ∧ file.file = 0 := by
  obtain ⟨entry, hentry, rfl⟩ := Option.map_eq_some_iff.mp known
  simp only [oneTable, Assoc.get?_insert, Assoc.get?_empty, Option.ite_none_right_eq_some,
    Option.some.injEq] at hentry
  obtain ⟨rfl, rfl⟩ := hentry
  exact ⟨rfl, rfl, rfl⟩

/-- The only table has its own file. -/
theorem ownFiles_of_alone {s : Storage} {table : TableId} {entry : CatalogEntry}
    (alone : s.catalog.tables = Assoc.empty.insert table entry) (keyed : entry.file.table = table)
    (there : entry.file.file < s.disk.files.length) : s.OwnFiles := by
  have only : ∀ other file, s.catalog.tableFile? other = some file → other = table ∧ file = entry.file := by
    intro other file known
    obtain ⟨found, hfound, rfl⟩ := Option.map_eq_some_iff.mp known
    rw [alone, Assoc.get?_insert, Assoc.get?_empty, Option.ite_none_right_eq_some, Option.some.injEq] at hfound
    exact ⟨hfound.1.symm, congrArg CatalogEntry.file hfound.2.symm⟩
  constructor
  · intro other file known
    obtain ⟨rfl, rfl⟩ := only other file known
    exact keyed
  · intro other file known
    rw [(only other file known).2]
    exact there
  · intro other file other' file' known known' _
    rw [(only other file known).1, (only other' file' known').1]

theorem ownFiles_oneTable : oneTable.OwnFiles := ownFiles_of_alone rfl rfl (by decide)

/-- The storage after the bytes of one page were put into a table's file. -/
def placed (s : Storage) (file : TableFile) (number : Nat) (bs : Bytes) : Storage :=
  { s with disk := file.placed number bs s.disk }

@[simp] theorem catalog_placed (s : Storage) (file : TableFile) (number : Nat) (bs : Bytes) :
    (s.placed file number bs).catalog = s.catalog := rfl

theorem tableFile_of_tableFile? {c : Catalog} {table : TableId} {file : TableFile}
    (h : c.tableFile? table = some file) : c.tableFile table = .ok file := by
  rw [Catalog.tableFile, h]

theorem tableFile?_of_tableFile {c : Catalog} {table : TableId} {file : TableFile}
    (h : c.tableFile table = .ok file) : c.tableFile? table = some file := by
  unfold Catalog.tableFile at h
  split at h
  · rename_i file' hfile
    cases h
    exact hfile
  · cases h

theorem OwnFiles.placed {s : Storage} (h : s.OwnFiles) (file : TableFile) (number : Nat) (bs : Bytes) :
    (s.placed file number bs).OwnFiles where
  keyed := h.keyed
  there := by
    intro table file' known
    have := h.there table file' known
    simpa [Storage.placed, TableFile.placed, Disk.setContent] using this
  apart := h.apart

/-! ## Reading -/

/-- What reading a page gives: a page of a known table as its file holds it. -/
structure Stored (s : Storage) (id : PageId) (page : Page) (file : TableFile) (bs : Bytes) : Prop where
  known : s.catalog.tableFile? id.table = some file
  table : id.table = file.table
  bytes : file.pages.read (file.content s.disk) id.number file.pageSize = .ok bs
  decoded : Page.ofBytes id file.schema file.pageSize bs = .ok page

theorem stored_of_readPage {s : Storage} {id : PageId} {page : Page} (h : s.readPage id = .ok page) :
    ∃ file bs, Stored s id page file bs := by
  unfold readPage at h
  cases hfile : s.catalog.tableFile id.table with
  | error e => simp [hfile, bind, Except.bind] at h
  | ok file =>
    have h : file.readPage s.disk id = .ok page := by
      rw [hfile] at h
      exact h
    by_cases htable : id.table = file.table
    · rw [TableFile.readPage_eq file s.disk htable] at h
      cases hread : file.pages.read (file.content s.disk) id.number file.pageSize with
      | error e => simp [hread, Except.bind] at h
      | ok bs =>
        rw [hread] at h
        exact ⟨file, bs, tableFile?_of_tableFile hfile, htable, hread, h⟩
    · simp [TableFile.readPage, TableFile.checkTable, htable, bind, Except.bind] at h

theorem Stored.read {s : Storage} {id : PageId} {page : Page} {file : TableFile} {bs : Bytes}
    (h : Stored s id page file bs) : Page.Read id file.schema file.pageSize bs page :=
  Page.read_of_ofBytes h.decoded

theorem id_of_readPage {s : Storage} {id : PageId} {page : Page} (h : s.readPage id = .ok page) :
    page.id = id := by
  obtain ⟨file, bs, hs⟩ := stored_of_readPage h
  exact hs.read.place

theorem clean_of_readPage {s : Storage} {id : PageId} {page : Page} (h : s.readPage id = .ok page) :
    page.dirtiedBy = none := by
  obtain ⟨file, bs, hs⟩ := stored_of_readPage h
  exact hs.read.clean

theorem sound_of_readPage {s : Storage} {id : PageId} {page : Page} (h : s.readPage id = .ok page) :
    page.Sound := by
  obtain ⟨file, bs, hs⟩ := stored_of_readPage h
  exact hs.read.sound

theorem readPage_of_tableFile? {s : Storage} {id : PageId} {file : TableFile} (own : s.OwnFiles)
    (known : s.catalog.tableFile? id.table = some file) :
    s.readPage id = (file.pages.read (file.content s.disk) id.number file.pageSize).bind
      (Page.ofBytes id file.schema file.pageSize) := by
  rw [← TableFile.readPage_eq file s.disk (own.keyed _ _ known).symm]
  unfold readPage
  rw [tableFile_of_tableFile? known]
  rfl

/-- A page that was read stands before the end of its file. -/
theorem Stored.number_lt {s : Storage} {id : PageId} {page : Page} {file : TableFile} {bs : Bytes}
    (h : Stored s id page file bs) (hpos : 0 < file.pageSize) : id.number < file.numPages s.disk := by
  refine TableFile.number_lt_of_readPage (p := page) hpos ?_
  rw [TableFile.readPage_eq file s.disk h.table, h.bytes]
  exact h.decoded

theorem Stored.in_file {s : Storage} {id : PageId} {page : Page} {file : TableFile} {bs : Bytes}
    (h : Stored s id page file bs) :
    id.number * file.pageSize + file.pageSize ≤ (file.content s.disk).length := by
  have hread := h.bytes
  rw [TableFile.pageSize, PageFile.read_eq] at hread
  split at hread
  · cases hread
  · unfold TableFile.pageSize
    omega

theorem room_of_in_file {n size length : Nat} (h : n * size + size ≤ length) : n * size ≤ length := by
  omega

theorem end_in_file (file : TableFile) (d : Disk) :
    file.numPages d * file.pageSize ≤ (file.content d).length := Nat.div_mul_le_self _ _

/-! ## Writing -/

/-- What is put into the file of one table is in that file only. -/
theorem content_placed {s : Storage} {table other : TableId} {file file' : TableFile}
    (own : s.OwnFiles) (known : s.catalog.tableFile? table = some file)
    (known' : s.catalog.tableFile? other = some file') (number : Nat) (bs : Bytes) :
    file'.content (s.placed file number bs).disk =
      if table = other then PageFile.overwrite (file.content s.disk) (number * file.pageSize) bs
      else file'.content s.disk := by
  have hcontent := Disk.content_setContent s.disk (own.there _ _ known)
    (PageFile.overwrite (file.content s.disk) (number * file.pageSize) bs) file'.file
  have hiff : file.file = file'.file ↔ table = other := by
    constructor
    · exact own.apart _ _ _ _ known known'
    · rintro rfl
      rw [known] at known'
      exact congrArg TableFile.file (Option.some.inj known')
  simp only [hiff] at hcontent
  exact hcontent

/-- A page that is put over another one, or behind the last one of its table, is the page that is
read; all other pages are read as before. -/
theorem readPage_placed {s : Storage} {table : TableId} {file : TableFile} {number : Nat} {bs : Bytes}
    (own : s.OwnFiles) (known : s.catalog.tableFile? table = some file)
    (hroom : number * file.pageSize ≤ (file.content s.disk).length) (hlen : bs.length = file.pageSize) (id : PageId) :
    (s.placed file number bs).readPage id =
      if id = ⟨table, number⟩ then Page.ofBytes id file.schema file.pageSize bs
      else s.readPage id := by
  cases hother : s.catalog.tableFile? id.table with
  | none =>
    have hne : ¬ id = ⟨table, number⟩ := by
      rintro rfl
      rw [known] at hother
      cases hother
    simp only [if_neg hne, readPage, catalog_placed, Catalog.tableFile, hother]
    rfl
  | some file' =>
    rw [readPage_of_tableFile? own hother, readPage_of_tableFile? (own.placed file number bs) hother,
      content_placed own known hother]
    by_cases htable : table = id.table
    · obtain rfl : file = file' := by
        rw [← htable, known] at hother
        exact Option.some.inj hother
      have hid : id = ⟨table, number⟩ ↔ id.number = number := by
        cases id
        simp_all
      rw [if_pos htable, TableFile.pageSize, file.pages.read_overwrite hroom hlen]
      by_cases hnum : id.number = number
      · rw [if_pos hnum, if_pos (hid.mpr hnum)]
        rfl
      · rw [if_neg hnum, if_neg (fun h => hnum (hid.mp h))]
    · have hne : ¬ id = ⟨table, number⟩ := by
        rintro rfl
        exact htable rfl
      rw [if_neg htable, if_neg hne]

/-- The bytes at the place of a page in the file of its table, as far as the file goes. -/
def bytesAt? (s : Storage) (id : PageId) : Option Bytes :=
  (s.catalog.tableFile? id.table).map fun file => file.pages.slice (file.content s.disk) id.number

theorem Stored.bytesAt? {s : Storage} {id : PageId} {page : Page} {file : TableFile} {bs : Bytes}
    (h : Stored s id page file bs) : s.bytesAt? id = some bs := by
  have hread := h.bytes
  rw [TableFile.pageSize, PageFile.read_eq] at hread
  split at hread
  · cases hread
  · rw [Storage.bytesAt?, h.known, Option.map_some, PageFile.slice, Except.ok.inj hread]

/-- The bytes of one page are replaced, and those of all others are as before. -/
theorem bytesAt?_placed {s : Storage} {table : TableId} {file : TableFile} {number : Nat} {bs : Bytes}
    (own : s.OwnFiles) (known : s.catalog.tableFile? table = some file)
    (hroom : number * file.pageSize ≤ (file.content s.disk).length) (hlen : bs.length = file.pageSize)
    (id : PageId) :
    (s.placed file number bs).bytesAt? id = if id = ⟨table, number⟩ then some bs else s.bytesAt? id := by
  cases hother : s.catalog.tableFile? id.table with
  | none =>
    have hne : ¬ id = ⟨table, number⟩ := by
      rintro rfl
      rw [known] at hother
      cases hother
    rw [if_neg hne, bytesAt?, bytesAt?, catalog_placed, hother]
    rfl
  | some file' =>
    rw [bytesAt?, bytesAt?, catalog_placed, hother, Option.map_some, Option.map_some,
      content_placed own known hother]
    by_cases htable : table = id.table
    · obtain rfl : file = file' := by
        rw [← htable, known] at hother
        exact Option.some.inj hother
      have hid : id = ⟨table, number⟩ ↔ id.number = number := by
        cases id
        simp_all
      rw [if_pos htable, TableFile.pageSize, file.pages.slice_overwrite hroom hlen]
      simp only [hid]
      split <;> rfl
    · have hne : ¬ id = ⟨table, number⟩ := by
        rintro rfl
        exact htable rfl
      rw [if_neg htable, if_neg hne]

theorem writePage_run {s : Storage} {page : Page} {file : TableFile} {bs : Bytes} (own : s.OwnFiles)
    (known : s.catalog.tableFile? page.id.table = some file) (hbs : page.data = .ok bs)
    (hlen : bs.length = file.pageSize) :
    writePage page s = (.ok (), s.placed file page.id.number bs) := by
  unfold writePage
  rw [Step.bind_of_ok (Step.read_run _ s), tableFile_of_tableFile? known]
  change onDisk (file.writePage page) s = _
  exact Step.focus_run (TableFile.writePage_run (own.keyed _ _ known).symm hbs hlen s.disk)

/-- A file that grows keeps its pages. -/
theorem readPage_grown {s : Storage} {table : TableId} {file : TableFile} (own : s.OwnFiles)
    (known : s.catalog.tableFile? table = some file) {id : PageId} {page : Page}
    (h : s.readPage id = .ok page) :
    (s.placed file (file.numPages s.disk) (Bytes.zeros file.pageSize)).readPage id = .ok page := by
  rw [readPage_placed own known (end_in_file file s.disk) (by simp)]
  split
  · -- Behind the last page there is one only if pages have no bytes, and then they are all the same.
    rename_i heq
    subst heq
    obtain ⟨file', bs, hs⟩ := stored_of_readPage h
    obtain rfl : file = file' := Option.some.inj (known.symm.trans hs.known)
    have hzero : file.pageSize = 0 := by
      rcases Nat.eq_zero_or_pos file.pageSize with h0 | hpos
      · exact h0
      · exact absurd (hs.number_lt hpos) (Nat.lt_irrefl _)
    have hlen : bs.length = 0 := hs.read.length.trans hzero
    rw [← hs.decoded, List.length_eq_zero_iff.mp hlen, hzero]
    rfl
  · exact h

/-- The page that is put behind all others is all free. -/
theorem readPage_grown_new {s : Storage} {table : TableId} {file : TableFile} (own : s.OwnFiles)
    (known : s.catalog.tableFile? table = some file) :
    ∃ page, (s.placed file (file.numPages s.disk) (Bytes.zeros file.pageSize)).readPage
        ⟨table, file.numPages s.disk⟩ = .ok page ∧ ∀ slot, page.fieldsAt slot = none := by
  obtain ⟨page, hpage, hslots⟩ := Page.ofBytes_zeros ⟨table, file.numPages s.disk⟩ file.schema file.pageSize
  refine ⟨page, ?_, ?_⟩
  · rw [readPage_placed own known (end_in_file file s.disk) (by simp), if_pos rfl]
    exact hpage
  · intro slot
    rw [Page.fieldsAt, hslots, List.getElem?_replicate]
    split <;> rfl

/-! ## Rows in files -/

/-- The row at a place, as the file of its table holds it. -/
def rowAt? (s : Storage) (place : RecordId) : Option (List Field) :=
  match s.readPage place.page with
  | .ok page => page.fieldsAt place.slot
  | .error _ => none

theorem rowAt?_of_ok {s : Storage} {place : RecordId} {page : Page}
    (h : s.readPage place.page = .ok page) : s.rowAt? place = page.fieldsAt place.slot := by
  rw [rowAt?, h]

/-- A file that grows has the same rows. -/
theorem rowAt?_grown {s : Storage} {table : TableId} {file : TableFile} (own : s.OwnFiles)
    (known : s.catalog.tableFile? table = some file) (place : RecordId) :
    (s.placed file (file.numPages s.disk) (Bytes.zeros file.pageSize)).rowAt? place =
      s.rowAt? place := by
  cases hread : s.readPage place.page with
  | ok page => rw [rowAt?_of_ok hread, rowAt?_of_ok (readPage_grown own known hread)]
  | error e =>
    have hbefore : s.rowAt? place = none := by rw [rowAt?, hread]
    by_cases hnew : place.page = ⟨table, file.numPages s.disk⟩
    · obtain ⟨page, hpage, hfree⟩ := readPage_grown_new own known
      rw [← hnew] at hpage
      rw [rowAt?_of_ok hpage, hfree, hbefore]
    · rw [rowAt?, readPage_placed own known (end_in_file file s.disk) (by simp), if_neg hnew, hread,
        hbefore]

/-! ## Files of pages -/

/-- A table's file has no bytes behind its last page. -/
def Paged (s : Storage) : Prop :=
  ∀ table file, s.catalog.tableFile? table = some file →
    (file.content s.disk).length = file.numPages s.disk * file.pageSize

theorem numPages_of_length {file : TableFile} {d : Disk} {n : Nat} (hpos : 0 < file.pageSize)
    (h : (file.content d).length = n * file.pageSize) : file.numPages d = n := by
  change (file.content d).length / file.pageSize = n
  rw [h, Nat.mul_div_cancel _ hpos]

theorem numPages_congr {file : TableFile} {d d' : Disk}
    (h : (file.content d').length = (file.content d).length) : file.numPages d' = file.numPages d := by
  change (file.content d').length / file.pageSize = (file.content d).length / file.pageSize
  rw [h]

theorem numPages_of_empty {file : TableFile} {d : Disk} (h : file.content d = []) : file.numPages d = 0 := by
  simp [TableFile.numPages, PageFile.numPages, h]

theorem paged_oneTable : oneTable.Paged := by
  intro table file known
  have hempty : file.content oneTable.disk = [] := by
    rw [TableFile.content, (eq_of_oneTable known).2.2]
    rfl
  rw [hempty, numPages_of_empty hempty, Nat.zero_mul, List.length_nil]

/-- A file that grows gets the bytes of one page at its end. -/
theorem content_grown {s : Storage} (h : Paged s) {table : TableId} {file : TableFile}
    (known : s.catalog.tableFile? table = some file) :
    PageFile.overwrite (file.content s.disk) (file.numPages s.disk * file.pageSize)
      (Bytes.zeros file.pageSize) = file.content s.disk ++ Bytes.zeros file.pageSize := by
  have hlen := h table file known
  rw [PageFile.overwrite, Bytes.fit_of_length hlen, List.drop_of_length_le (by omega), List.append_nil]

/-- Bytes behind the last page become a part of the new one. -/
theorem numPages_grown {s : Storage} {table : TableId} {file : TableFile} (own : s.OwnFiles)
    (known : s.catalog.tableFile? table = some file) (hpos : 0 < file.pageSize) :
    file.numPages (s.placed file (file.numPages s.disk) (Bytes.zeros file.pageSize)).disk =
      file.numPages s.disk + 1 := by
  have hlt : (file.content s.disk).length < (file.numPages s.disk + 1) * file.pageSize := by
    rw [Nat.mul_comm]
    exact Nat.lt_mul_div_succ _ hpos
  apply numPages_of_length hpos
  rw [content_placed own known known, if_pos rfl, PageFile.length_overwrite, Bytes.length_zeros, ← Nat.succ_mul]
  exact Nat.max_eq_right (Nat.le_of_lt hlt)

/-- So all files are made of pages as before. -/
theorem Paged.grown {s : Storage} (h : Paged s) {table : TableId} {file : TableFile} (own : s.OwnFiles)
    (known : s.catalog.tableFile? table = some file) :
    Paged (s.placed file (file.numPages s.disk) (Bytes.zeros file.pageSize)) := by
  intro other file' known'
  have hcontent := content_placed own known known' (file.numPages s.disk) (Bytes.zeros file.pageSize)
  by_cases heq : table = other
  · subst heq
    obtain rfl : file = file' := Option.some.inj (known.symm.trans known')
    rcases Nat.eq_zero_or_pos file.pageSize with h0 | hpos
    · rw [if_pos rfl, content_grown h known] at hcontent
      rw [hcontent, List.length_append, Bytes.length_zeros, h table file known, h0]
      omega
    · rw [numPages_grown own known hpos, hcontent, if_pos rfl, content_grown h known, List.length_append,
        Bytes.length_zeros, h table file known, Nat.succ_mul]
  · rw [if_neg heq] at hcontent
    rw [numPages_congr (congrArg List.length hcontent), hcontent]
    exact h other file' known'

/-- Files that are as long as before, and empty ones, are made of pages. -/
theorem Paged.of_lengths {s s' : Storage} (h : Paged s)
    (hkept : ∀ table file, s'.catalog.tableFile? table = some file →
      (s.catalog.tableFile? table = some file ∧
        (file.content s'.disk).length = (file.content s.disk).length) ∨
      file.content s'.disk = []) : Paged s' := by
  intro table file known
  rcases hkept table file known with ⟨known', hlen⟩ | hempty
  · rw [numPages_congr hlen, hlen]
    exact h table file known'
  · rw [hempty, numPages_of_empty hempty, Nat.zero_mul, List.length_nil]

/-! ## Whole files -/

/-- A table's file is made of pages, each of which can be read, and of nothing else. -/
structure Whole (s : Storage) : Prop where
  length : ∀ table file, s.catalog.tableFile? table = some file →
    (file.content s.disk).length = file.numPages s.disk * file.pageSize
  reads : ∀ table file n, s.catalog.tableFile? table = some file → n < file.numPages s.disk →
    ∃ page, s.readPage ⟨table, n⟩ = .ok page

/-- A whole file that grows by a page is whole. -/
theorem Whole.grown {s : Storage} (h : Whole s) {table : TableId} {file : TableFile}
    (own : s.OwnFiles) (known : s.catalog.tableFile? table = some file) (hpos : 0 < file.pageSize) :
    Whole (s.placed file (file.numPages s.disk) (Bytes.zeros file.pageSize)) := by
  refine ⟨Paged.grown h.length own known, ?_⟩
  intro other file' n known' hn
  by_cases heq : table = other
  · subst heq
    obtain rfl : file = file' := Option.some.inj (known.symm.trans known')
    rw [numPages_grown own known hpos] at hn
    rcases Nat.lt_or_ge n (file.numPages s.disk) with hlt | hge
    · obtain ⟨page, hpage⟩ := h.reads table file n known hlt
      exact ⟨page, readPage_grown own known hpage⟩
    · obtain rfl : n = file.numPages s.disk := by omega
      obtain ⟨page, hpage, -⟩ := readPage_grown_new own known
      exact ⟨page, hpage⟩
  · have hcontent := content_placed own known known' (file.numPages s.disk) (Bytes.zeros file.pageSize)
    rw [if_neg heq] at hcontent
    rw [numPages_congr (congrArg List.length hcontent)] at hn
    obtain ⟨page, hpage⟩ := h.reads other file' n known' hn
    exact ⟨page, readPage_grown own known hpage⟩

/-- A file without a page is whole, and files that stay as they are stay whole. -/
theorem Whole.of_reads {s s' : Storage} (h : Whole s)
    (hkept : ∀ table file, s'.catalog.tableFile? table = some file →
      (s.catalog.tableFile? table = some file ∧
        (file.content s'.disk).length = (file.content s.disk).length) ∨
      file.content s'.disk = [])
    (hreads : ∀ id page, s.readPage id = .ok page → ∃ page', s'.readPage id = .ok page') :
    Whole s' := by
  refine ⟨Paged.of_lengths h.length hkept, ?_⟩
  intro table file n known hn
  rcases hkept table file known with ⟨known', hlen⟩ | hempty
  · obtain ⟨page, hpage⟩ := h.reads table file n known' (numPages_congr hlen ▸ hn)
    exact hreads _ page hpage
  · rw [numPages_of_empty hempty] at hn
    exact absurd hn (Nat.not_lt_zero n)

end PageStore.Storage
