-- Tables that are made in a directory. Each has the file that its name says, the file
-- of a name that no table has is empty, and making one more table, or failing to,
-- leaves the files of all others as they are.
import PageStore.Proofs.Step
import PageStore.Proofs.Storage.Names
import PageStore.Proofs.Storage.Pages

namespace PageStore.Storage

/-- A table is registered under its name, and its file is the one of that name. -/
structure Listed (s : Storage) (table : TableId) (entry : CatalogEntry) : Prop where
  keyed : entry.file.table = table
  size : entry.file.pageSize = s.catalog.pageSize
  leads : s.disk.names.get? (fileNameOf entry.name) = some entry.file.file
  named : s.catalog.names.get? entry.name = some table

structure Tidy (s : Storage) : Prop where
  disk : s.disk.Sound
  listed : ∀ table entry, s.catalog.tables.get? table = some entry → Listed s table entry
  /-- A file without a table holds nothing. -/
  unused : ∀ name file, s.disk.names.get? (fileNameOf name) = some file →
    s.catalog.names.get? name = none → s.disk.content file = []

/-! ## File names -/

theorem fileNameOf_inj {name other : String} (h : fileNameOf name = fileNameOf other) :
    name = other := by
  have hlist := congrArg String.toList h
  simp only [fileNameOf, String.toList_append] at hlist
  exact String.toList_inj.mp (List.append_cancel_right hlist)

theorem getLast?_fileNameOf (name : String) : (fileNameOf name).toList.getLast? = some 't' := by
  have hend : ".dat".toList = ['.', 'd', 'a', 't'] := by decide
  rw [fileNameOf, String.toList_append, hend, List.getLast?_append]
  rfl

/-- No table's file is one of those that hold the list of tables. -/
theorem fileNameOf_ne_catalogFile (name : String) :
    fileNameOf name ≠ catalogFile ∧ fileNameOf name ≠ nextCatalogFile := by
  have hlast := getLast?_fileNameOf name
  constructor
  · intro h
    rw [h] at hlast
    revert hlast
    decide
  · intro h
    rw [h] at hlast
    revert hlast
    decide

theorem no_slash_of_validName {name : String} (h : Catalog.validName name = true) :
    '/' ∉ (fileNameOf name).toList := by
  simp only [Catalog.validName, Bool.and_eq_true, List.all_eq_true] at h
  have hend : ".dat".toList = ['.', 'd', 'a', 't'] := by decide
  rw [fileNameOf, String.toList_append, List.mem_append, hend, not_or]
  refine ⟨fun hmem => ?_, by decide⟩
  have := h.2 '/' hmem
  simp at this

/-! ## Files of their own -/

theorem tableFile?_eq_some {c : Catalog} {table : TableId} {file : TableFile} :
    c.tableFile? table = some file ↔ ∃ entry, c.tables.get? table = some entry ∧ entry.file = file := by
  unfold Catalog.tableFile?
  rw [Option.map_eq_some_iff]

theorem Tidy.ownFiles {s : Storage} (h : Tidy s) : s.OwnFiles where
  keyed := by
    intro table file known
    obtain ⟨entry, hentry, rfl⟩ := tableFile?_eq_some.mp known
    exact (h.listed table entry hentry).keyed
  there := by
    intro table file known
    obtain ⟨entry, hentry, rfl⟩ := tableFile?_eq_some.mp known
    exact h.disk.there _ _ (h.listed table entry hentry).leads
  apart := by
    intro table file other file' known known' hsame
    obtain ⟨entry, hentry, rfl⟩ := tableFile?_eq_some.mp known
    obtain ⟨entry', hentry', rfl⟩ := tableFile?_eq_some.mp known'
    have hl := h.listed table entry hentry
    have hl' := h.listed other entry' hentry'
    have hname : entry.name = entry'.name :=
      fileNameOf_inj (h.disk.apart _ _ _ hl.leads (hsame ▸ hl'.leads))
    have hid := hl.named
    rw [hname, hl'.named] at hid
    exact (Option.some.inj hid).symm

theorem tidy_new (directory : String) (pageSize : Nat) :
    Tidy { catalog := { onDisk := true, pageSize }, disk := { directory } } where
  disk := Disk.sound_empty directory
  listed := fun _ _ h => nomatch h
  unused := fun _ _ h => nomatch h

/-- Pages put into the files of tables leave everything in its place. -/
theorem Tidy.placed {s : Storage} (h : Tidy s) {table : TableId} {file : TableFile}
    (known : s.catalog.tableFile? table = some file) (number : Nat) (bs : Bytes) :
    Tidy (s.placed file number bs) where
  disk := h.disk.setContent _ _
  listed := by
    intro other entry hentry
    obtain ⟨hkeyed, hsize, hleads, hnamed⟩ := h.listed other entry hentry
    exact ⟨hkeyed, hsize, hleads, hnamed⟩
  unused := by
    intro name other hname hnone
    obtain ⟨entry, hentry, rfl⟩ := tableFile?_eq_some.mp known
    have hl := h.listed table entry hentry
    have hne : s.disk.names.get? (fileNameOf name) ≠ some entry.file.file := by
      intro hsame
      have := fileNameOf_inj (h.disk.apart _ _ _ hsame hl.leads)
      change s.catalog.names.get? name = none at hnone
      rw [this, hl.named] at hnone
      cases hnone
    have hsame := (Disk.sameAt_setContent hne (PageFile.overwrite (entry.file.content s.disk)
      (number * entry.file.pageSize) bs)).2 other hname
    exact hsame.trans (h.unused name other hname hnone)

/-! ## More tables -/

/-- All tables are there as before, and what is there beside them is empty. -/
structure Extends (s s' : Storage) : Prop where
  kept : ∀ table file, s.catalog.tableFile? table = some file →
    s'.catalog.tableFile? table = some file ∧ file.content s'.disk = file.content s.disk
  fresh : ∀ table file, s'.catalog.tableFile? table = some file →
    s.catalog.tableFile? table = none → file.content s'.disk = []
  pageSize : s'.catalog.pageSize = s.catalog.pageSize

/-- No new table came to be known. -/
theorem Extends.of_same {s s' : Storage}
    (hsame : ∀ table, s'.catalog.tableFile? table = s.catalog.tableFile? table)
    (hsize : s'.catalog.pageSize = s.catalog.pageSize)
    (hcontent : ∀ table file, s.catalog.tableFile? table = some file →
      file.content s'.disk = file.content s.disk) : Extends s s' where
  kept := fun table file known => ⟨(hsame table).trans known, hcontent table file known⟩
  fresh := by
    intro table file known hnone
    rw [hsame, hnone] at known
    cases known
  pageSize := hsize

theorem Extends.refl (s : Storage) : Extends s s := .of_same (fun _ => rfl) rfl fun _ _ _ => rfl

theorem Extends.trans {s s' s'' : Storage} (h : Extends s s') (h' : Extends s' s'') :
    Extends s s'' where
  kept := by
    intro table file known
    obtain ⟨known', hcontent⟩ := h.kept table file known
    obtain ⟨known'', hcontent'⟩ := h'.kept table file known'
    exact ⟨known'', hcontent'.trans hcontent⟩
  fresh := by
    intro table file known hnone
    cases hmid : s'.catalog.tableFile? table with
    | none => exact h'.fresh table file known hmid
    | some file' =>
      obtain ⟨known', hcontent⟩ := h'.kept table file' hmid
      obtain rfl : file' = file := Option.some.inj (known'.symm.trans known)
      exact hcontent.trans (h.fresh table file' hmid hnone)
  pageSize := h'.pageSize.trans h.pageSize

/-- Files whose names belong to tables stay as they are. -/
theorem Tidy.of_sameAt {s : Storage} (h : Tidy s) {d : Disk} (hd : d.Sound)
    (hsame : ∀ name, Disk.SameAt (fileNameOf name) s.disk d) :
    Tidy { s with disk := d } ∧ Extends s { s with disk := d } := by
  refine ⟨⟨hd, ?_, ?_⟩, .of_same (fun _ => rfl) rfl ?_⟩
  · intro table entry hentry
    obtain ⟨hkeyed, hsize, hleads, hnamed⟩ := h.listed table entry hentry
    exact ⟨hkeyed, hsize, (hsame entry.name).1.trans hleads, hnamed⟩
  · intro name file hname hnone
    have hbefore := (hsame name).1.symm.trans hname
    exact ((hsame name).2 file hbefore).trans (h.unused name file hbefore hnone)
  · intro table file known
    obtain ⟨entry, hentry, rfl⟩ := tableFile?_eq_some.mp known
    exact (hsame entry.name).2 _ (h.listed table entry hentry).leads

theorem persist_spec {s : Storage} (h : Tidy s) :
    ∃ s', persist s = (.ok (), s') ∧ Tidy s' ∧ Extends s s' := by
  refine ⟨_, rfl, ?_⟩
  have hput : (s.disk.put nextCatalogFile (TableDefinition.encodeAll s.catalog.definitions)).Sound :=
    h.disk.put _ _
  obtain ⟨hsound, hothers⟩ := Disk.rename_spec hput nextCatalogFile catalogFile
  refine h.of_sameAt hsound fun name => ?_
  obtain ⟨hne, hne'⟩ := fileNameOf_ne_catalogFile name
  exact (Disk.sameAt_put h.disk hne' _).trans (hothers _ hne' hne)

/-- A table's file is made before the table is known. -/
theorem create_spec {s : Storage} (h : Tidy s) {name : String}
    (hfree : s.catalog.names.get? name = none) :
    Tidy { s with disk := (s.disk.create (fileNameOf name)).2 } ∧
      Extends s { s with disk := (s.disk.create (fileNameOf name)).2 } := by
  have hc := Disk.create_creates h.disk (fileNameOf name)
  have hother : ∀ other, other ≠ name →
      Disk.SameAt (fileNameOf other) s.disk (s.disk.create (fileNameOf name)).2 :=
    fun other hne => hc.others _ fun heq => hne (fileNameOf_inj heq)
  have hlisted : ∀ table entry, s.catalog.tables.get? table = some entry → entry.name ≠ name := by
    intro table entry hentry heq
    have := (h.listed table entry hentry).named
    rw [heq, hfree] at this
    cases this
  refine ⟨⟨hc.sound, ?_, ?_⟩, .of_same (fun _ => rfl) rfl ?_⟩
  · intro table entry hentry
    obtain ⟨hkeyed, hsize, hleads, hnamed⟩ := h.listed table entry hentry
    exact ⟨hkeyed, hsize, (hother _ (hlisted table entry hentry)).1.trans hleads, hnamed⟩
  · intro other file hname hnone
    by_cases heq : other = name
    · subst heq
      have hfile := Option.some.inj (hc.leads.symm.trans hname)
      cases hbefore : s.disk.names.get? (fileNameOf other) with
      | none => exact hfile ▸ hc.fresh hbefore
      | some file' =>
        have hsame := hc.kept (by rw [hbefore]; exact Option.some_ne_none _)
        simp only [hsame] at hname ⊢
        exact h.unused other file hname hfree
    · have hbefore := (hother other heq).1.symm.trans hname
      exact ((hother other heq).2 file hbefore).trans (h.unused other file hbefore hnone)
  · intro table file known
    obtain ⟨entry, hentry, rfl⟩ := tableFile?_eq_some.mp known
    exact (hother _ (hlisted table entry hentry)).2 _ (h.listed table entry hentry).leads

/-- What registering checks, and what it comes to. -/
theorem register_eq_ok {c c' : Catalog} {file : TableFile} {name : String} {storedAs : Option String} :
    c.register file name storedAs = .ok c' ↔
      file.pageSize = c.pageSize ∧ Catalog.checkFits name file.schema file.pageSize = .ok () ∧
        c.names.get? name = none ∧ c.tables.get? file.table = none ∧
        c' = { c with
          tables := c.tables.insert file.table { name, file, storedAs }
          names := c.names.insert name file.table } := by
  unfold Catalog.register
  by_cases hsize : file.pageSize = c.pageSize
  · cases hfits : Catalog.checkFits name file.schema file.pageSize with
    | error e => simp [hsize, bind, Except.bind]
    | ok u =>
      cases hname : c.names.get? name with
      | some id => simp [hsize, Assoc.contains, hname, bind, Except.bind]
      | none =>
        cases hid : c.tables.get? file.table with
        | some entry => simp [hsize, Assoc.contains, hname, hid, bind, Except.bind]
        | none => simp [hsize, Assoc.contains, hname, hid, bind, Except.bind, eq_comm]
  · simp [hsize, bind, Except.bind]

theorem tableFile?_insert (c : Catalog) (entry : CatalogEntry) (names : Assoc String TableId)
    (table : TableId) :
    Catalog.tableFile? { c with tables := c.tables.insert entry.file.table entry, names } table =
      if entry.file.table = table then some entry.file else c.tableFile? table := by
  unfold Catalog.tableFile?
  rw [Assoc.get?_insert]
  split <;> rfl

theorem register_spec {s : Storage} (h : Tidy s) {c : Catalog} {file : TableFile} {name : String}
    (hleads : s.disk.names.get? (fileNameOf name) = some file.file)
    (hreg : s.catalog.register file name (some (fileNameOf name)) = .ok c) :
    Tidy { s with catalog := c } ∧ Extends s { s with catalog := c } := by
  obtain ⟨hsize, -, hname, hid, rfl⟩ := register_eq_ok.mp hreg
  have hget := tableFile?_insert s.catalog { name, file, storedAs := some (fileNameOf name) }
    (s.catalog.names.insert name file.table)
  refine ⟨⟨h.disk, ?_, ?_⟩, ⟨?_, ?_, rfl⟩⟩
  · intro table entry hentry
    rw [Assoc.get?_insert] at hentry
    split at hentry
    · rename_i heq
      cases hentry
      refine ⟨heq, hsize, hleads, ?_⟩
      rw [Assoc.get?_insert, if_pos rfl, heq]
    · obtain ⟨hkeyed, hsize', hleads', hnamed⟩ := h.listed table entry hentry
      refine ⟨hkeyed, hsize', hleads', ?_⟩
      rw [Assoc.get?_insert, if_neg]
      · exact hnamed
      · rintro rfl
        rw [hname] at hnamed
        cases hnamed
  · intro other file' hother hnone
    rw [Assoc.get?_insert] at hnone
    split at hnone
    · cases hnone
    · exact h.unused other file' hother hnone
  · intro table file' known
    refine ⟨?_, rfl⟩
    rw [hget, if_neg]
    · exact known
    · rintro rfl
      rw [Catalog.tableFile?, hid] at known
      cases known
  · intro table file' known hnone
    rw [hget] at known
    split at known
    · cases known
      exact h.unused name file.file hleads hname
    · rw [known] at hnone
      cases hnone

theorem ofName_run (table : TableId) {path : String} (hslash : '/' ∉ path.toList) (schema : Schema)
    (pageSize : Nat) (d : Disk) :
    (∃ e, TableFile.ofName table path schema pageSize d = (.error e, d)) ∨
      ∃ file, TableFile.ofName table path schema pageSize d = (.ok file, (d.create path).2) ∧
        file.file = (d.create path).1 := by
  unfold TableFile.ofName
  rcases Disk.openFile_spec (d := d) hslash with ⟨e, herror⟩ | hok
  · left
    exact ⟨e, Step.bind_of_error herror _⟩
  · right
    rw [Step.bind_of_ok hok]
    exact ⟨_, rfl, rfl⟩

/-- An id that is taken changes no table. -/
theorem takeId_spec {s : Storage} (h : Tidy s) :
    Tidy { s with catalog := s.catalog.takeId.2 } ∧ Extends s { s with catalog := s.catalog.takeId.2 } := by
  refine ⟨⟨h.disk, ?_, h.unused⟩, .of_same (fun _ => rfl) rfl fun _ _ _ => rfl⟩
  intro table entry hentry
  obtain ⟨hkeyed, hsize, hleads, hnamed⟩ := h.listed table entry hentry
  exact ⟨hkeyed, hsize, hleads, hnamed⟩

/-- Making a table, or failing to, leaves all tables as they are. -/
theorem createTable_ends (name : String) (schema : Schema) {s : Storage} (h : Tidy s) :
    (createTable name schema).Ends s fun _ s' => Tidy s' ∧ Extends s s' := by
  have hnothing : Tidy s ∧ Extends s s := ⟨h, Extends.refl s⟩
  unfold createTable
  refine Step.Ends.of_ok (Step.read_run _ s) ?_
  refine Step.Ends.check (fun _ => ?_) (fun _ => hnothing)
  refine Step.Ends.check (fun hvalid => ?_) (fun _ => hnothing)
  refine Step.Ends.ofExcept (fun _ _ => ?_) (fun _ _ => hnothing)
  refine Step.Ends.check (fun hfree => ?_) (fun _ => hnothing)
  have hfree : s.catalog.names.get? name = none := by simpa [Assoc.contains] using hfree
  -- The id is taken, whatever becomes of the table.
  have htaken := takeId_spec h
  rcases htake : s.catalog.takeId with ⟨id, c⟩
  rw [htake] at htaken
  obtain ⟨htidy, hextends⟩ := htaken
  have hname : c.names.get? name = none := by
    have hsame : s.catalog.takeId.2.names = s.catalog.names := rfl
    rw [htake] at hsame
    exact hsame ▸ hfree
  refine Step.Ends.of_ok (Step.update_run _ s) ?_
  have hcreated := create_spec htidy hname
  rcases ofName_run id (no_slash_of_validName hvalid) schema c.pageSize s.disk with
    ⟨e, hrun⟩ | ⟨file, hrun, hfile⟩
  · exact Step.Ends.of_error (Step.focus_run hrun) ⟨htidy, hextends⟩
  · refine Step.Ends.of_ok (Step.focus_run hrun) ?_
    have hmade : Extends s { catalog := c, disk := (s.disk.create (fileNameOf name)).2 } :=
      hextends.trans hcreated.2
    refine Step.Ends.ofExcept ?_ (fun _ _ => ⟨hcreated.1, hmade⟩)
    intro c' hreg
    have hleads : (s.disk.create (fileNameOf name)).2.names.get? (fileNameOf name) = some file.file := by
      rw [hfile]
      exact (Disk.create_creates h.disk (fileNameOf name)).leads
    obtain ⟨htidy', hextends'⟩ := register_spec hcreated.1 hleads hreg
    refine Step.Ends.of_ok (Step.update_run _ _) ?_
    obtain ⟨s', hpersist, htidy'', hextends''⟩ := persist_spec htidy'
    refine Step.Ends.of_ok hpersist ?_
    exact ⟨htidy'', (hmade.trans hextends').trans hextends''⟩

/-! ## What stays of pages and rows -/

theorem Extends.readPage {s s' : Storage} (h : Extends s s') (own : s.OwnFiles) (own' : s'.OwnFiles)
    {id : PageId} {page : Page} (hpage : s.readPage id = .ok page) : s'.readPage id = .ok page := by
  obtain ⟨file, bs, hs⟩ := stored_of_readPage hpage
  obtain ⟨known, hcontent⟩ := h.kept id.table file hs.known
  rw [readPage_of_tableFile? own' known, hcontent, ← readPage_of_tableFile? own hs.known]
  exact hpage

/-- A new table has no rows, and the others have the rows that they had. -/
theorem Extends.rowAt? {s s' : Storage} (h : Extends s s') (own : s.OwnFiles) (own' : s'.OwnFiles)
    (hpos : ∀ table file, s'.catalog.tableFile? table = some file → 0 < file.pageSize)
    (place : RecordId) : s'.rowAt? place = s.rowAt? place := by
  cases hbefore : s.catalog.tableFile? place.page.table with
  | some file =>
    obtain ⟨known, hcontent⟩ := h.kept _ file hbefore
    unfold Storage.rowAt?
    rw [readPage_of_tableFile? own' known, hcontent, ← readPage_of_tableFile? own hbefore]
  | none =>
    have hnone : s.rowAt? place = none := by
      rw [Storage.rowAt?, Storage.readPage, Catalog.tableFile, hbefore]
      rfl
    rw [hnone]
    cases hpage : s'.readPage place.page with
    | error e => rw [Storage.rowAt?, hpage]
    | ok page =>
      -- A page of a new table would stand before the end of an empty file.
      obtain ⟨file, bs, hs⟩ := stored_of_readPage hpage
      have hempty := h.fresh _ file hs.known hbefore
      have hlt := hs.number_lt (hpos _ file hs.known)
      have hzero : file.numPages s'.disk = 0 := by
        simp [TableFile.numPages, PageFile.numPages, hempty]
      omega

theorem Extends.whole {s s' : Storage} (h : Extends s s') (own : s.OwnFiles) (own' : s'.OwnFiles)
    (hw : Whole s) : Whole s' := by
  refine hw.of_reads ?_ fun id page hpage => ⟨page, h.readPage own own' hpage⟩
  intro table file known
  cases hbefore : s.catalog.tableFile? table with
  | none => exact .inr (h.fresh table file known hbefore)
  | some file' =>
    obtain ⟨known', hcontent⟩ := h.kept table file' hbefore
    obtain rfl : file' = file := Option.some.inj (known'.symm.trans known)
    exact .inl ⟨rfl, congrArg List.length hcontent⟩

end PageStore.Storage
