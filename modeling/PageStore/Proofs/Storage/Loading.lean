-- Opening a directory. It succeeds if the list of its tables can be read, the file of
-- each can be opened, a row of each fits on a page, and no id and no name stands twice;
-- the catalog then has these tables in their order, and no others.
import PageStore.Proofs.Storage.Tables

namespace PageStore

namespace Catalog

/-! ## What a catalog lists -/

/-- What a stored list says of a table, if it lists it. -/
def definitionOf? (e : TableId × CatalogEntry) : Option TableDefinition :=
  e.2.storedAs.map fun fileName => { id := e.1, name := e.2.name, fileName, schema := e.2.file.schema }

/-- The definitions of the tables to be listed, in the order in which they came to be known. -/
def stored (c : Catalog) : List TableDefinition := c.tables.entries.filterMap definitionOf?

/-- Every table is known by its name, and no name is known without its table. -/
def Named (c : Catalog) : Prop := c.names.entries = c.tables.entries.map fun e => (e.2.name, e.1)

/-- The tables of a catalog are these, all of them to be listed, in this order. -/
structure Lists (c : Catalog) (defs : List TableDefinition) : Prop where
  tables : c.tables.entries.map definitionOf? = defs.map some
  named : c.Named

theorem Lists.stored {c : Catalog} {defs : List TableDefinition} (h : c.Lists defs) : c.stored = defs := by
  have hfilter : c.stored = (c.tables.entries.map definitionOf?).filterMap id := by
    rw [List.filterMap_map]
    rfl
  rw [hfilter, h.tables, List.filterMap_map]
  exact List.filterMap_some

theorem perm_definitions (c : Catalog) : c.definitions.Perm c.stored := List.mergeSort_perm ..

theorem definitionOf?_eq_some {e : TableId × CatalogEntry} {d : TableDefinition} (h : definitionOf? e = some d) :
    d.id = e.1 ∧ d.name = e.2.name := by
  obtain ⟨fileName, -, rfl⟩ := Option.map_eq_some_iff.mp h
  exact ⟨rfl, rfl⟩

theorem map_of_definitionOf? {α : Type} {f : TableDefinition → α} {g : TableId × CatalogEntry → α}
    (h : ∀ e d, definitionOf? e = some d → f d = g e) {l : List (TableId × CatalogEntry)}
    {defs : List TableDefinition} (hl : l.map definitionOf? = defs.map some) : l.map g = defs.map f := by
  induction l generalizing defs with
  | nil =>
    obtain rfl := List.map_eq_nil_iff.mp hl.symm
    rfl
  | cons e rest ih =>
    obtain ⟨d, defs, rfl, hd, hrest⟩ := List.map_eq_cons_iff.mp hl.symm
    rw [List.map_cons, List.map_cons, h e d hd.symm, ih hrest.symm]

theorem Lists.ids {c : Catalog} {defs : List TableDefinition} (h : c.Lists defs) :
    c.tables.keys = defs.map TableDefinition.id :=
  map_of_definitionOf? (fun _ _ hd => (definitionOf?_eq_some hd).1) h.tables

theorem Lists.names {c : Catalog} {defs : List TableDefinition} (h : c.Lists defs) :
    c.names.keys = defs.map TableDefinition.name := by
  rw [Assoc.keys, h.named, List.map_map]
  exact map_of_definitionOf? (fun _ _ hd => (definitionOf?_eq_some hd).2) h.tables

/-- What is said of the tables that are listed, place by place, is a part of what is known of all. -/
theorem sublist_of_definitionOf? {α : Type} {f : TableDefinition → α} {g : TableId × CatalogEntry → α}
    (h : ∀ e d, definitionOf? e = some d → f d = g e) (l : List (TableId × CatalogEntry)) :
    ((l.filterMap definitionOf?).map f).Sublist (l.map g) := by
  induction l with
  | nil => exact List.Sublist.slnil
  | cons e rest ih =>
    cases hd : definitionOf? e with
    | none =>
      rw [List.filterMap_cons_none hd, List.map_cons]
      exact ih.cons _
    | some d =>
      rw [List.filterMap_cons_some hd, List.map_cons, List.map_cons, h e d hd]
      exact ih.cons_cons _

theorem nodup_stored_ids (c : Catalog) : (c.stored.map TableDefinition.id).Nodup :=
  c.tables.nodup.sublist (sublist_of_definitionOf? (fun _ _ h => (definitionOf?_eq_some h).1) c.tables.entries)

theorem Named.nodup_stored_names {c : Catalog} (h : c.Named) : (c.stored.map TableDefinition.name).Nodup := by
  have hnames : (c.tables.entries.map fun e => e.2.name).Nodup := by
    have hnodup := c.names.nodup
    rw [h, List.map_map] at hnodup
    exact hnodup
  exact hnames.sublist (sublist_of_definitionOf? (fun _ _ h => (definitionOf?_eq_some h).2) c.tables.entries)

/-! ## Registering -/

/-- One more table is known. -/
structure Registers (c : Catalog) (table : TableId) (entry : CatalogEntry) (c' : Catalog) : Prop where
  tables : c'.tables.entries = c.tables.entries ++ [(table, entry)]
  names : c'.names.entries = c.names.entries ++ [(entry.name, table)]
  onDisk : c'.onDisk = c.onDisk
  pageSize : c'.pageSize = c.pageSize
  nextId : c'.nextId = c.nextId

theorem registers_of_register {c c' : Catalog} {file : TableFile} {name : String} {storedAs : Option String}
    (h : c.register file name storedAs = .ok c') : c.Registers file.table { name, file, storedAs } c' := by
  obtain ⟨-, -, hname, hid, rfl⟩ := Storage.register_eq_ok.mp h
  exact ⟨Assoc.entries_insert_of_new hid _, Assoc.entries_insert_of_new hname _, rfl, rfl, rfl⟩

variable {c c' : Catalog} {table : TableId} {entry : CatalogEntry}

theorem Registers.named (h : c.Registers table entry c') (named : c.Named) : c'.Named := by
  rw [Named, h.names, h.tables, named, List.map_append]
  rfl

theorem Registers.stored (h : c.Registers table entry c') :
    c'.stored = c.stored ++ (definitionOf? (table, entry)).toList := by
  rw [Catalog.stored, h.tables, List.filterMap_append]
  cases hd : definitionOf? (table, entry) <;> simp [hd, Catalog.stored]

theorem Registers.lists {d : TableDefinition} {defs : List TableDefinition} (h : c.Registers table entry c')
    (hd : definitionOf? (table, entry) = some d) (lists : c.Lists defs) : c'.Lists (defs ++ [d]) := by
  refine ⟨?_, h.named lists.named⟩
  rw [h.tables, List.map_append, lists.tables, List.map_append, List.map_singleton, hd]
  rfl

end Catalog

/-! ## Files -/

/-- The list of tables that a directory has. One without a list has no tables. -/
def Disk.listed (d : Disk) : Except Error (List TableDefinition) :=
  match d.lookup? Storage.catalogFile with
  | none => .ok []
  | some bs => TableDefinition.decodeAll bs

/-- Files were made, and all files that were there are as they were. -/
structure Disk.Grows (d d' : Disk) : Prop where
  sound : d'.Sound
  directory : d'.directory = d.directory
  lookup? : ∀ name, d.lookup? name ≠ none → d'.lookup? name = d.lookup? name

theorem Disk.Grows.refl {d : Disk} (h : d.Sound) : Grows d d := ⟨h, rfl, fun _ _ => rfl⟩

theorem Disk.Grows.trans {d d' d'' : Disk} (h : Grows d d') (h' : Grows d' d'') : Grows d d'' where
  sound := h'.sound
  directory := h'.directory.trans h.directory
  lookup? name hname := by
    have hsame := h.lookup? name hname
    exact (h'.lookup? name (hsame ▸ hname)).trans hsame

theorem Disk.grows_create {d : Disk} (h : d.Sound) (name : String) : Grows d (d.create name).2 where
  sound := (create_creates h name).sound
  directory := directory_create d name
  lookup? _ hother := lookup?_create h (.inr hother)

/-- A directory that has a list keeps it. -/
theorem Disk.Grows.listed {d d' : Disk} (h : Grows d d') (hlist : d.lookup? Storage.catalogFile ≠ none) :
    d'.listed = d.listed := by
  unfold Disk.listed
  rw [h.lookup? _ hlist]

/-- The file of a table can be opened, and its rows fit on a page. -/
structure TableDefinition.Loadable (d : Disk) (pageSize : Nat) (t : TableDefinition) : Prop where
  opens : ∃ name, d.nameOf t.fileName = .ok name
  fits : Catalog.checkFits t.name t.schema pageSize = .ok ()

theorem TableDefinition.Loadable.of_directory {d d' : Disk} {pageSize : Nat} {t : TableDefinition}
    (h : t.Loadable d pageSize) (hsame : d'.directory = d.directory) : t.Loadable d' pageSize :=
  ⟨by rw [Disk.nameOf_congr hsame]; exact h.opens, h.fits⟩

namespace Storage

variable {d : Disk} {c : Catalog} {pageSize : Nat}

/-- Opening the file of a table succeeds if its name leads to a file, which is made if it is missing. -/
theorem ofName_of_nameOf {path name : String} (h : d.nameOf path = .ok name) (table : TableId) (schema : Schema)
    (pageSize : Nat) :
    ∃ file, TableFile.ofName table path schema pageSize d = (.ok file, (d.create name).2) ∧
      file.table = table ∧ file.schema = schema ∧ file.pageSize = pageSize := by
  unfold TableFile.ofName
  rw [Step.bind_of_ok (Disk.openFile_of_nameOf h)]
  exact ⟨_, rfl, rfl, rfl, rfl⟩

theorem ofName_of_error {path : String} {e : FileFault} (h : d.nameOf path = .error e) (table : TableId)
    (schema : Schema) (pageSize : Nat) :
    TableFile.ofName table path schema pageSize d = (.error (.file e), d) := by
  unfold TableFile.ofName
  exact Step.bind_of_error (Disk.openFile_of_error h) _

/-! ## Registering what is listed -/

/-- A table that is registered from its definition is listed with it. -/
theorem definitionOf?_stored {t : TableDefinition} {file : TableFile} (table : file.table = t.id)
    (schema : file.schema = t.schema) :
    Catalog.definitionOf? (file.table, { name := t.name, file, storedAs := some t.fileName }) = some t := by
  rw [Catalog.definitionOf?, table, schema]
  rfl

/-- The first table of a list is opened, then registered. -/
theorem registerAll_of_nameOf {t : TableDefinition} {name : String} (h : d.nameOf t.fileName = .ok name)
    (c : Catalog) (pageSize : Nat) (rest : List TableDefinition) :
    ∃ file : TableFile, file.table = t.id ∧ file.schema = t.schema ∧ file.pageSize = pageSize ∧
      (∀ c', c.register file t.name (some t.fileName) = .ok c' →
        registerAll pageSize c (t :: rest) d = registerAll pageSize c' rest (d.create name).2) ∧
      ∀ e, c.register file t.name (some t.fileName) = .error e →
        registerAll pageSize c (t :: rest) d = (.error e, (d.create name).2) := by
  obtain ⟨file, hopen, htable, hschema, hsize⟩ := ofName_of_nameOf h t.id t.schema pageSize
  refine ⟨file, htable, hschema, hsize, fun c' hreg => ?_, fun e hreg => ?_⟩
  · rw [registerAll, Step.bind_of_ok hopen, hreg]
    rfl
  · rw [registerAll, Step.bind_of_ok hopen, hreg]
    rfl

/-- What a list that was registered says of the directory, and what the catalog knows then. -/
theorem registerAll_ok {c' : Catalog} {d' : Disk} {defs before : List TableDefinition}
    (h : registerAll pageSize c defs d = (.ok c', d')) (sound : d.Sound) (size : c.pageSize = pageSize)
    (lists : c.Lists before) :
    d.Grows d' ∧ (∀ t ∈ defs, t.Loadable d pageSize) ∧ c'.Lists (before ++ defs) ∧
      c'.onDisk = c.onDisk ∧ c'.pageSize = c.pageSize := by
  induction defs generalizing c d before with
  | nil =>
    cases h
    exact ⟨.refl sound, fun t ht => (nomatch ht), (List.append_nil before).symm ▸ lists, rfl, rfl⟩
  | cons t rest ih =>
    cases hname : d.nameOf t.fileName with
    | error e =>
      rw [registerAll, Step.bind_of_error (ofName_of_error hname ..)] at h
      cases h
    | ok name =>
      obtain ⟨file, htable, hschema, hsize, hok, herror⟩ := registerAll_of_nameOf hname c pageSize rest
      cases hreg : c.register file t.name (some t.fileName) with
      | error e =>
        rw [herror e hreg] at h
        cases h
      | ok c₁ =>
        rw [hok c₁ hreg] at h
        have hregisters := Catalog.registers_of_register hreg
        have hdefinition := definitionOf?_stored htable hschema
        have hgrows := Disk.grows_create sound name
        obtain ⟨hgrows', hload, hlists, hdisk, hpage⟩ :=
          ih h hgrows.sound (hregisters.pageSize.trans size) (hregisters.lists hdefinition lists)
        refine ⟨hgrows.trans hgrows', List.forall_mem_cons.mpr ⟨⟨⟨name, hname⟩, ?_⟩, fun u hu => ?_⟩, ?_, ?_, ?_⟩
        · have hfits := (register_eq_ok.mp hreg).2.1
          rwa [hschema, hsize] at hfits
        · exact (hload u hu).of_directory hgrows.directory.symm
        · rwa [List.append_cons]
        · exact hdisk.trans hregisters.onDisk
        · exact hpage.trans hregisters.pageSize

/-- A list of tables that can be loaded, with ids and names of their own, is registered. -/
theorem registerAll_succeeds {defs before : List TableDefinition} (load : ∀ t ∈ defs, t.Loadable d pageSize)
    (sound : d.Sound) (size : c.pageSize = pageSize) (lists : c.Lists before)
    (ids : ((before ++ defs).map TableDefinition.id).Nodup)
    (names : ((before ++ defs).map TableDefinition.name).Nodup) :
    ∃ c' d', registerAll pageSize c defs d = (.ok c', d') := by
  induction defs generalizing c d before with
  | nil => exact ⟨c, d, rfl⟩
  | cons t rest ih =>
    obtain ⟨hfirst, hrest⟩ := List.forall_mem_cons.mp load
    obtain ⟨name, hname⟩ := hfirst.opens
    obtain ⟨file, htable, hschema, hsize, hok, -⟩ := registerAll_of_nameOf hname c pageSize rest
    have newName : c.names.get? t.name = none := by
      refine Assoc.find_eq_none_iff.mpr fun hmem => ?_
      change t.name ∈ c.names.keys at hmem
      rw [lists.names] at hmem
      rw [List.map_append, List.map_cons, List.nodup_append] at names
      exact names.2.2 _ hmem _ List.mem_cons_self rfl
    have newId : c.tables.get? file.table = none := by
      refine Assoc.find_eq_none_iff.mpr fun hmem => ?_
      change file.table ∈ c.tables.keys at hmem
      rw [htable, lists.ids] at hmem
      rw [List.map_append, List.map_cons, List.nodup_append] at ids
      exact ids.2.2 _ hmem _ List.mem_cons_self rfl
    have hfits : Catalog.checkFits t.name file.schema file.pageSize = .ok () := by
      rw [hschema, hsize]
      exact hfirst.fits
    have hreg : c.register file t.name (some t.fileName) = .ok _ :=
      register_eq_ok.mpr ⟨hsize.trans size.symm, hfits, newName, newId, rfl⟩
    have hregisters := Catalog.registers_of_register hreg
    rw [hok _ hreg]
    have hgrows := Disk.grows_create sound name
    refine ih (fun u hu => (hrest u hu).of_directory hgrows.directory) hgrows.sound
      (hregisters.pageSize.trans size) (hregisters.lists (definitionOf?_stored htable hschema) lists) ?_ ?_
    · rwa [← List.append_cons]
    · rwa [← List.append_cons]

/-! ## Opening a directory -/

/-- A catalog that was just opened: it has the listed tables, and new ids begin above all of theirs. -/
structure Opened (pageSize : Nat) (defs : List TableDefinition) (c : Catalog) : Prop where
  lists : c.Lists defs
  onDisk : c.onDisk = true
  pageSize : c.pageSize = pageSize
  nextId : c.nextId = Catalog.idAfter ((defs.map TableDefinition.id).foldl max 0)

theorem opened_of_lists {defs : List TableDefinition} (lists : c.Lists defs) (onDisk : c.onDisk = true)
    (size : c.pageSize = pageSize) :
    Opened pageSize defs { c with nextId := Catalog.idAfter ((defs.map TableDefinition.id).foldl max 0) } :=
  ⟨⟨lists.tables, lists.named⟩, onDisk, size, rfl⟩

theorem lists_fresh (pageSize : Nat) : Catalog.Lists { onDisk := true, pageSize } [] := ⟨rfl, rfl⟩

/-- Opening is reading the list and registering it. -/
theorem load_eq (pageSize : Nat) (d : Disk) :
    load pageSize d = (do
      let defs ← Step.ofExcept d.listed
      let c ← registerAll pageSize { onDisk := true, pageSize } defs
      return { c with nextId := Catalog.idAfter ((defs.map TableDefinition.id).foldl max 0) }) d := by
  unfold load
  rw [Step.bind_of_ok (Step.state_run d)]
  unfold Disk.listed
  cases d.lookup? catalogFile with
  | none => rfl
  | some bs => rfl

/-- What a directory that could be opened has. -/
theorem load_ok {d' : Disk} (h : load pageSize d = (.ok c, d')) (sound : d.Sound) :
    ∃ defs, d.listed = .ok defs ∧ (∀ t ∈ defs, t.Loadable d pageSize) ∧ Opened pageSize defs c ∧
      d.Grows d' ∧ d'.listed = d.listed := by
  rw [load_eq] at h
  cases hlisted : d.listed with
  | error e =>
    rw [hlisted] at h
    cases h
  | ok defs =>
    rw [hlisted, Step.bind_of_ok (Step.ofExcept_run (.ok defs) d)] at h
    rcases hall : registerAll pageSize { onDisk := true, pageSize } defs d with ⟨e | c₁, d₁⟩
    · rw [Step.bind_of_error hall] at h
      cases h
    · rw [Step.bind_of_ok hall] at h
      cases h
      obtain ⟨hgrows, hload, hlists, hdisk, hsize⟩ := registerAll_ok hall sound rfl (lists_fresh pageSize)
      refine ⟨defs, rfl, hload, opened_of_lists hlists hdisk hsize, hgrows, ?_⟩
      rw [← hlisted]
      by_cases hlist : d.lookup? catalogFile = none
      · -- Without a list there is no table whose file could have been made.
        have hnone : d.listed = .ok [] := by
          unfold Disk.listed
          rw [hlist]
        obtain rfl : defs = [] := Except.ok.inj (hlisted.symm.trans hnone)
        cases hall
        rfl
      · exact hgrows.listed hlist

/-- A directory can be opened if its list can be read and all tables of the list can be loaded. -/
theorem load_succeeds {defs : List TableDefinition} (listed : d.listed = .ok defs) (sound : d.Sound)
    (load : ∀ t ∈ defs, t.Loadable d pageSize) (ids : (defs.map TableDefinition.id).Nodup)
    (names : (defs.map TableDefinition.name).Nodup) :
    ∃ c d', Storage.load pageSize d = (.ok c, d') ∧ Opened pageSize defs c := by
  obtain ⟨c, d', hall⟩ := registerAll_succeeds load sound rfl (lists_fresh pageSize) ids names
  obtain ⟨-, -, hlists, hdisk, hsize⟩ := registerAll_ok hall sound rfl (lists_fresh pageSize)
  refine ⟨_, d', ?_, opened_of_lists hlists hdisk hsize⟩
  rw [load_eq, listed, Step.bind_of_ok (Step.ofExcept_run (.ok defs) d), Step.bind_of_ok hall]
  rfl

end Storage

end PageStore
