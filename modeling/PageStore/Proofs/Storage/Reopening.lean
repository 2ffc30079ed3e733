-- Directories that are opened again. Whatever tables were made, added or rejected, the
-- list in the directory is that of the tables it had and of those that were made in it,
-- so opening it again gives these, with all that is said of them, and no others.
import PageStore.Proofs.Storage.Definitions
import PageStore.Proofs.Storage.Loading
import Mathlib.Data.List.Perm.Subperm

namespace PageStore

/-! ## Ids -/

namespace Catalog

variable {c : Catalog}

theorem idAfter_lt (id : TableId) : idAfter id < idCount := Nat.mod_lt _ (by decide)

theorem freeFrom_lt {id : TableId} (h : id < idCount) (tries : Nat) : c.freeFrom tries id < idCount := by
  induction tries generalizing id with
  | zero => exact h
  | succ tries ih =>
    unfold freeFrom
    split
    · exact ih (idAfter_lt id)
    · exact h

theorem freeFrom_of_free {id : TableId} (h : c.tables.get? id = none) (tries : Nat) :
    c.freeFrom tries id = id := by
  cases tries with
  | zero => rfl
  | succ tries => simp [freeFrom, Assoc.contains, h]

theorem foldl_max_le_iff (l : List Nat) (a b : Nat) : l.foldl max a ≤ b ↔ a ≤ b ∧ ∀ x ∈ l, x ≤ b := by
  induction l generalizing a with
  | nil => simp
  | cons x l ih =>
    rw [List.foldl_cons, ih, Nat.max_le, List.forall_mem_cons, and_assoc]

/-- The first id that an opened catalog hands out is greater than those of its tables, as long as
the greatest id of all is not among these. -/
theorem lt_takeId {pageSize : Nat} {defs : List TableDefinition} (h : Storage.Opened pageSize defs c)
    (ids : ∀ t ∈ defs, t.id + 1 < idCount) : ∀ id ∈ c.tables.keys, id < c.takeId.1 := by
  obtain ⟨-, hle⟩ := (foldl_max_le_iff (defs.map TableDefinition.id) 0 _).mp (Nat.le_refl _)
  have hmax : (defs.map TableDefinition.id).foldl max 0 ≤ idCount - 2 := by
    refine (foldl_max_le_iff ..).mpr ⟨Nat.zero_le _, fun id hid => ?_⟩
    obtain ⟨t, ht, rfl⟩ := List.mem_map.mp hid
    exact Nat.le_sub_of_add_le (ids t ht)
  have hnext : c.nextId = (defs.map TableDefinition.id).foldl max 0 + 1 := by
    rw [h.nextId, idAfter, Nat.mod_eq_of_lt]
    exact Nat.lt_of_le_of_lt (Nat.succ_le_succ hmax) (by decide)
  have hfree : c.tables.get? c.nextId = none := by
    refine Assoc.find_eq_none_iff.mpr fun hmem => ?_
    change c.nextId ∈ c.tables.keys at hmem
    rw [h.lists.ids] at hmem
    have hbelow := hle _ hmem
    rw [hnext] at hbelow
    exact Nat.not_succ_le_self _ hbelow
  intro id hid
  rw [h.lists.ids] at hid
  have hid := hle id hid
  rw [takeId, freeFrom_of_free hfree]
  exact hnext ▸ Nat.lt_succ_of_le hid

/-- The tables of a catalog are these, all of them to be listed, and each is known by its name. -/
structure Knows (c : Catalog) (defs : List TableDefinition) : Prop where
  tables : (c.tables.entries.map definitionOf?).Perm (defs.map some)
  names : ∀ name id, c.idOf? name = some id ↔ ∃ t ∈ defs, t.name = name ∧ t.id = id

theorem Lists.knows {listed defs : List TableDefinition} (h : c.Lists listed) (hperm : listed.Perm defs) :
    c.Knows defs where
  tables := h.tables ▸ hperm.map some
  names name id := by
    have hentries : c.names.entries = listed.map fun t => (t.name, t.id) := by
      rw [h.named]
      refine map_of_definitionOf? (fun e d hd => ?_) h.tables
      rw [(definitionOf?_eq_some hd).1, (definitionOf?_eq_some hd).2]
    rw [idOf?, ← Assoc.mem_entries, hentries, List.mem_map]
    simp only [Prod.mk.injEq, hperm.mem_iff]

end Catalog

/-! ## What a call changes -/

namespace Storage

/-- Nothing changed that has to do with the list. -/
structure Quiet (s s' : Storage) : Prop where
  sound : s'.disk.Sound
  directory : s'.disk.directory = s.disk.directory
  list : s'.disk.lookup? catalogFile = s.disk.lookup? catalogFile
  pageSize : s'.catalog.pageSize = s.catalog.pageSize
  named : s.catalog.Named → s'.catalog.Named
  stored : s'.catalog.stored = s.catalog.stored
  nextId : s.catalog.nextId < Catalog.idCount → s'.catalog.nextId < Catalog.idCount

theorem Quiet.refl {s : Storage} (h : s.disk.Sound) : Quiet s s := ⟨h, rfl, rfl, rfl, id, rfl, id⟩

/-- One more table can be loaded, and the list was written with it. -/
structure Makes (s : Storage) (t : TableDefinition) (s' : Storage) : Prop where
  sound : s'.disk.Sound
  directory : s'.disk.directory = s.disk.directory
  list : s'.disk.lookup? catalogFile = some (TableDefinition.encodeAll s'.catalog.definitions)
  pageSize : s'.catalog.pageSize = s.catalog.pageSize
  named : s.catalog.Named → s'.catalog.Named
  stored : s'.catalog.stored = s.catalog.stored ++ [t]
  nextId : s'.catalog.nextId < Catalog.idCount
  loadable : t.Loadable s.disk s.catalog.pageSize
  id : s.catalog.nextId < Catalog.idCount → t.id < Catalog.idCount

variable {s : Storage}

/-- A table that is not listed leaves the list alone, whether or not it is rejected. -/
theorem addTable_quiet (file : TableFile) (name : String) (sound : s.disk.Sound) :
    Quiet s (addTable file name s).2 := by
  unfold addTable
  rw [Step.bind_of_ok (Step.read_run (fun s : Storage => s.catalog) s)]
  cases hreg : s.catalog.register file name none with
  | error e => exact .refl sound
  | ok c =>
    have hregisters := Catalog.registers_of_register hreg
    refine ⟨sound, rfl, rfl, hregisters.pageSize, hregisters.named, ?_, fun h => ?_⟩
    · have hstored := hregisters.stored
      rwa [Catalog.definitionOf?, Option.map_none, Option.toList_none, List.append_nil] at hstored
    · exact Nat.lt_of_le_of_lt (Nat.le_of_eq hregisters.nextId) h

theorem takeId_quiet (sound : s.disk.Sound) : Quiet s (takeId s).2 :=
  ⟨sound, rfl, rfl, rfl, id, rfl, fun _ => Catalog.idAfter_lt _⟩

/-- A table that is made is listed; one that is rejected leaves the list alone. -/
theorem createTable_lists (name : String) (schema : Schema) (sound : s.disk.Sound) :
    (createTable name schema).Ends s fun r s' => match r with
      | .ok id => Makes s { id, name, fileName := fileNameOf name, schema } s'
      | .error _ => Quiet s s' := by
  have hnothing : Quiet s s := .refl sound
  unfold createTable
  refine Step.Ends.of_ok (Step.read_run _ s) ?_
  refine Step.Ends.check (fun _ => ?_) (fun _ => hnothing)
  refine Step.Ends.check (fun hvalid => ?_) (fun _ => hnothing)
  refine Step.Ends.ofExcept (fun _ hfits => ?_) (fun _ _ => hnothing)
  refine Step.Ends.check (fun _ => ?_) (fun _ => hnothing)
  -- The id is taken, whatever becomes of the table.
  have htaken := takeId_quiet sound
  refine Step.Ends.of_ok (Step.update_run _ s) ?_
  cases hname : s.disk.nameOf (fileNameOf name) with
  | error e => exact Step.Ends.of_error (Step.focus_run (ofName_of_error hname ..)) htaken
  | ok fileName =>
    obtain rfl := Disk.nameOf_of_no_slash (no_slash_of_validName hvalid) hname
    obtain ⟨file, hopen, htable, hschema, hsize⟩ :=
      ofName_of_nameOf hname s.catalog.takeId.1 schema s.catalog.pageSize
    refine Step.Ends.of_ok (Step.focus_run hopen) ?_
    have hcreated := (Disk.create_creates sound (fileNameOf name)).sound
    have hlist : (s.disk.create (fileNameOf name)).2.lookup? catalogFile = s.disk.lookup? catalogFile :=
      Disk.lookup?_create sound (.inl (fileNameOf_ne_catalogFile name).1.symm)
    refine Step.Ends.ofExcept (fun c hreg => ?_) (fun _ _ => ?_)
    · have hregisters := Catalog.registers_of_register hreg
      refine Step.Ends.of_ok (Step.update_run _ _) (Step.Ends.of_ok (Step.update_run _ _) ?_)
      have hdefinition :=
        definitionOf?_stored (t := ⟨s.catalog.takeId.1, name, fileNameOf name, schema⟩) htable hschema
      have hstored := hregisters.stored
      rw [hdefinition] at hstored
      exact {
        sound := (Disk.rename_spec (hcreated.put _ _) _ _).1
        directory := (Disk.directory_replaced ..).trans (Disk.directory_create ..)
        list := Disk.lookup?_replaced hcreated _ _ _
        pageSize := hregisters.pageSize
        named := hregisters.named
        stored := hstored
        nextId := Nat.lt_of_le_of_lt (Nat.le_of_eq hregisters.nextId) (Catalog.idAfter_lt _)
        loadable := ⟨⟨_, hname⟩, hfits⟩
        id := fun hlt => Catalog.freeFrom_lt hlt _ }
    · exact ⟨hcreated, Disk.directory_create .., hlist, rfl, id, rfl, htaken.nextId⟩

/-! ## What the list says at all times -/

/-- The tables to be listed are these, and the directory has a list of them that can be read and
loaded. -/
structure Recorded (pageSize : Nat) (defs : List TableDefinition) (s : Storage) : Prop where
  sound : s.disk.Sound
  size : s.catalog.pageSize = pageSize
  named : s.catalog.Named
  nextId : s.catalog.nextId < Catalog.idCount
  stored : s.catalog.stored = defs
  listed : ∃ listed, s.disk.listed = .ok listed ∧ listed.Perm defs
  loadable : ∀ t ∈ defs, t.Loadable s.disk pageSize
  writable : ∀ t ∈ defs, t.Writable

variable {pageSize : Nat} {defs : List TableDefinition} {s' : Storage}

theorem Recorded.quiet (h : Recorded pageSize defs s) (hq : Quiet s s') : Recorded pageSize defs s' where
  sound := hq.sound
  size := hq.pageSize.trans h.size
  named := hq.named h.named
  nextId := hq.nextId h.nextId
  stored := hq.stored.trans h.stored
  listed := by
    have hsame : s'.disk.listed = s.disk.listed := by
      unfold Disk.listed
      rw [hq.list]
    rw [hsame]
    exact h.listed
  loadable t ht := (h.loadable t ht).of_directory hq.directory
  writable := h.writable

/-- Numbers that differ are not more than there are below a bound. -/
theorem length_le_of_nodup {l : List Nat} {n : Nat} (nodup : l.Nodup) (h : ∀ i ∈ l, i < n) : l.length ≤ n := by
  have hsub := nodup.subperm fun i hi => List.mem_range.mpr (h i hi)
  exact List.length_range (n := n) ▸ hsub.length_le

/-- The list that a catalog writes can be read. -/
theorem listed_of_stored (stored : s.catalog.stored = defs) (writable : ∀ t ∈ defs, t.Writable)
    (list : s.disk.lookup? catalogFile = some (TableDefinition.encodeAll s.catalog.definitions)) :
    ∃ listed, s.disk.listed = .ok listed ∧ listed.Perm defs := by
  have hperm : s.catalog.definitions.Perm defs := stored ▸ s.catalog.perm_definitions
  have hcount : defs.length ≤ Nat.pow 256 4 := by
    have hids := length_le_of_nodup (stored ▸ s.catalog.nodup_stored_ids) (n := Nat.pow 256 4) fun id hid => by
      obtain ⟨t, ht, rfl⟩ := List.mem_map.mp hid
      exact (writable t ht).id
    rwa [List.length_map] at hids
  refine ⟨s.catalog.definitions, ?_, hperm⟩
  unfold Disk.listed
  rw [list]
  refine TableDefinition.decodeAll_encodeAll ⟨?_, fun t ht => writable t (hperm.mem_iff.mp ht)⟩
  rw [hperm.length_eq]
  exact Nat.lt_of_le_of_lt hcount (by decide)

theorem Recorded.makes (h : Recorded pageSize defs s) {t : TableDefinition} (hm : Makes s t s')
    (ht : t.Writable) : Recorded pageSize (defs ++ [t]) s' := by
  have hstored : s'.catalog.stored = defs ++ [t] := by rw [hm.stored, h.stored]
  have hwritable : ∀ u ∈ defs ++ [t], u.Writable :=
    List.forall_mem_append.mpr ⟨h.writable, List.forall_mem_singleton.mpr ht⟩
  refine ⟨hm.sound, hm.pageSize.trans h.size, hm.named h.named, hm.nextId, hstored,
    listed_of_stored hstored hwritable hm.list, fun u hu => ?_, hwritable⟩
  refine TableDefinition.Loadable.of_directory ?_ hm.directory
  rcases List.mem_append.mp hu with hu | hu
  · exact h.loadable u hu
  · rw [List.mem_singleton.mp hu, ← h.size]
    exact hm.loadable

/-- A directory that could be opened is recorded. -/
theorem recorded_of_load {c : Catalog} {d d' : Disk} (sound : d.Sound) (h : load pageSize d = (.ok c, d')) :
    ∃ defs, d.listed = .ok defs ∧ Opened pageSize defs c ∧
      Recorded pageSize defs { catalog := c, disk := d' } := by
  obtain ⟨defs, hlisted, hload, hopened, hgrows, hsame⟩ := load_ok h sound
  refine ⟨defs, hlisted, hopened, ?_⟩
  exact {
    sound := hgrows.sound
    size := hopened.pageSize
    named := hopened.lists.named
    nextId := hopened.nextId ▸ Catalog.idAfter_lt _
    stored := hopened.lists.stored
    listed := ⟨defs, hsame.trans hlisted, .refl _⟩
    loadable := fun t ht => (hload t ht).of_directory hgrows.directory
    writable := by
      unfold Disk.listed at hlisted
      split at hlisted
      · cases hlisted
        exact fun t ht => nomatch ht
      · exact (TableDefinition.writable_of_decodeAll hlisted).2 }

/-- A directory that is recorded can be opened. -/
theorem Recorded.load (h : Recorded pageSize defs s) :
    ∃ listed c d', load pageSize s.disk = (.ok c, d') ∧ Opened pageSize listed c ∧ listed.Perm defs := by
  obtain ⟨listed, hlisted, hperm⟩ := h.listed
  have hids : (listed.map TableDefinition.id).Nodup :=
    (hperm.map _).nodup_iff.mpr (h.stored ▸ s.catalog.nodup_stored_ids)
  have hnames : (listed.map TableDefinition.name).Nodup :=
    (hperm.map _).nodup_iff.mpr (h.stored ▸ h.named.nodup_stored_names)
  obtain ⟨c, d', hload, hopened⟩ := load_succeeds hlisted h.sound
    (fun t ht => h.loadable t (hperm.mem_iff.mp ht)) hids hnames
  exact ⟨listed, c, d', hload, hopened, hperm⟩

end Storage

/-! ## Calls -/

/-- What can be asked of a catalog that changes it. -/
inductive CatalogCall where
  | create (name : String) (schema : Schema)
  | add (file : TableFile) (name : String)
  | takeId

namespace CatalogCall

/-- What a call comes to, and the table that it made in the directory, if it is one that makes such
tables and was not rejected. -/
def run : CatalogCall → Storage → Option TableDefinition × Storage
  | create name schema, s =>
    let (r, s') := Storage.createTable name schema s
    (r.toOption.map fun id => { id, name, fileName := Storage.fileNameOf name, schema }, s')
  | add file name, s => (none, (Storage.addTable file name s).2)
  | takeId, s => (none, (Storage.takeId s).2)

/-- Calls one after the other, with the tables that they made in the directory. -/
def runAll : List CatalogCall → Storage → List TableDefinition × Storage
  | [], s => ([], s)
  | call :: rest, s =>
    let (made, s) := call.run s
    let (others, s) := runAll rest s
    (made.toList ++ others, s)

/-- There is room for the number of the columns and for the lengths of their names. -/
def Writable : CatalogCall → Prop
  | create _ schema =>
    TableDefinition.WritableList (fun c : Column => TableDefinition.WritableText c.name) schema.columns
  | add _ _ => True
  | takeId => True

variable {call : CatalogCall} {s : Storage} {pageSize : Nat} {defs : List TableDefinition}

/-- A call makes one table, or nothing that has to do with the list. -/
theorem run_lists (call : CatalogCall) (sound : s.disk.Sound) :
    match (call.run s).1 with
      | some t => Storage.Makes s t (call.run s).2
      | none => Storage.Quiet s (call.run s).2 := by
  cases call with
  | create name schema =>
    have hends := Storage.createTable_lists name schema sound
    unfold Step.Ends at hends
    rcases hcreate : Storage.createTable name schema s with ⟨e | id, s'⟩
    · rw [hcreate] at hends
      rw [run, hcreate]
      exact hends
    · rw [hcreate] at hends
      rw [run, hcreate]
      exact hends
  | add file name => exact Storage.addTable_quiet file name sound
  | takeId => exact Storage.takeId_quiet sound

/-- The name of a table that was made, and of its file, is no longer than that of a file can be. -/
theorem writable_of_makes {t : TableDefinition} {s' : Storage} (writable : call.Writable)
    (h : (call.run s).1 = some t) (hm : Storage.Makes s t s') (nextId : s.catalog.nextId < Catalog.idCount) :
    t.Writable := by
  cases call with
  | create name schema =>
    obtain ⟨id, hid, rfl⟩ := Option.map_eq_some_iff.mp h
    obtain ⟨fileName, hname⟩ := hm.loadable.opens
    have hfile : (Utf8.encode (Storage.fileNameOf name)).length ≤ Disk.maxPathBytes :=
      Disk.length_le_of_nameOf hname
    have hlength : (Utf8.encode name).length ≤ Disk.maxPathBytes := by
      rw [Storage.fileNameOf, Utf8.encode_append, List.length_append] at hfile
      omega
    exact {
      id := hm.id nextId
      name := Nat.lt_of_le_of_lt hlength (by decide)
      fileName := Nat.lt_of_le_of_lt hfile (by decide)
      columns := writable }
  | add file name => cases h
  | takeId => cases h

/-- One call. -/
theorem run_recorded (h : Storage.Recorded pageSize defs s) (writable : call.Writable) :
    Storage.Recorded pageSize (defs ++ (call.run s).1.toList) (call.run s).2 := by
  have hlists := run_lists call h.sound
  cases hmade : (call.run s).1 with
  | none =>
    rw [hmade] at hlists
    exact (List.append_nil defs).symm ▸ h.quiet hlists
  | some t =>
    rw [hmade] at hlists
    exact h.makes hlists (writable_of_makes writable hmade hlists h.nextId)

/-- All calls. -/
theorem runAll_recorded (h : Storage.Recorded pageSize defs s) {calls : List CatalogCall}
    (writable : ∀ call ∈ calls, call.Writable) :
    Storage.Recorded pageSize (defs ++ (runAll calls s).1) (runAll calls s).2 := by
  induction calls generalizing s defs with
  | nil => exact (List.append_nil defs).symm ▸ h
  | cons call rest ih =>
    obtain ⟨hfirst, hrest⟩ := List.forall_mem_cons.mp writable
    have hrun := ih (run_recorded h hfirst) hrest
    rwa [List.append_assoc] at hrun

end CatalogCall

namespace Storage

/-- A directory that could be opened can be opened again at any time, and then has exactly the tables
that its list named and those that were made in it since, with all that their definitions say. Tables
that were added are not among them, new ids begin above all of theirs, and a call that makes no such
table leaves the list alone. -/
theorem a_directory_is_opened_as_it_was_left {pageSize : Nat} {d d₁ : Disk} {c : Catalog} (sound : d.Sound)
    (opened : load pageSize d = (.ok c, d₁)) :
    ∃ listed, d.listed = .ok listed ∧ c.Knows listed ∧
      ∀ calls made s, (∀ call ∈ calls, CatalogCall.Writable call) →
        CatalogCall.runAll calls { catalog := c, disk := d₁ } = (made, s) →
        (∀ call : CatalogCall, (call.run s).1 = none →
          (call.run s).2.disk.lookup? catalogFile = s.disk.lookup? catalogFile) ∧
        ((∀ t ∈ listed ++ made, t.id + 1 < Catalog.idCount) →
          ∃ c' d', load pageSize s.disk = (.ok c', d') ∧ c'.Knows (listed ++ made) ∧
            ∀ id ∈ c'.tables.keys, id < c'.takeId.1) := by
  obtain ⟨listed, hlisted, hopened, hrecorded⟩ := recorded_of_load sound opened
  refine ⟨listed, hlisted, hopened.lists.knows (.refl _), fun calls made s writable hrun => ?_⟩
  have h := CatalogCall.runAll_recorded hrecorded writable
  rw [hrun] at h
  refine ⟨fun call hnone => ?_, fun ids => ?_⟩
  · have hquiet := CatalogCall.run_lists call h.sound
    rw [hnone] at hquiet
    exact hquiet.list
  · obtain ⟨again, c', d', hload, hopened', hperm⟩ := h.load
    refine ⟨c', d', hload, hopened'.lists.knows hperm, ?_⟩
    exact Catalog.lt_takeId hopened' fun t ht => ids t (hperm.mem_iff.mp ht)

/-- A directory without files, as it is opened. -/
def newDirectory : Storage := { catalog := { onDisk := true, pageSize := 64 }, disk := { directory := "d" } }

def oneColumn : Schema := ⟨[⟨"a", .int⟩]⟩

/-- Two tables are made; one is added in between, and one is rejected. -/
def twoTablesMade : List CatalogCall :=
  [.create "t" oneColumn,
    .add { table := 7, schema := oneColumn, pages := { path := "x", pageSize := 64 }, file := 9 } "x",
    .create "t" oneColumn, .takeId, .create "u" oneColumn]

theorem a_table_that_was_added_is_not_reopened :
    newDirectory.disk.Sound ∧ load 64 newDirectory.disk = (.ok newDirectory.catalog, newDirectory.disk) ∧
      (∀ call ∈ twoTablesMade, call.Writable) ∧
      ∃ s, CatalogCall.runAll twoTablesMade newDirectory =
          ([⟨1, "t", "t.dat", oneColumn⟩, ⟨3, "u", "u.dat", oneColumn⟩], s) ∧
        s.catalog.tables.keys = [1, 7, 3] ∧
        ∃ c' d', load 64 s.disk = (.ok c', d') ∧
          c'.Knows [⟨1, "t", "t.dat", oneColumn⟩, ⟨3, "u", "u.dat", oneColumn⟩] ∧
          ∀ id ∈ c'.tables.keys, id < c'.takeId.1 := by
  have sound : newDirectory.disk.Sound := Disk.sound_empty "d"
  have opened : load 64 newDirectory.disk = (.ok newDirectory.catalog, newDirectory.disk) := rfl
  have columns : TableDefinition.WritableList (fun c : Column => TableDefinition.WritableText c.name)
      oneColumn.columns := by
    refine ⟨by decide, List.forall_mem_singleton.mpr ?_⟩
    unfold TableDefinition.WritableText
    decide +kernel
  have writable : ∀ call ∈ twoTablesMade, call.Writable := by
    simp only [twoTablesMade, List.forall_mem_cons]
    exact ⟨columns, trivial, columns, trivial, columns, fun _ h => nomatch h⟩
  have made : (CatalogCall.runAll twoTablesMade newDirectory).1 =
      [⟨1, "t", "t.dat", oneColumn⟩, ⟨3, "u", "u.dat", oneColumn⟩] := by decide +kernel
  obtain ⟨listed, hlisted, -, h⟩ := a_directory_is_opened_as_it_was_left sound opened
  obtain rfl : listed = [] := (Except.ok.inj hlisted).symm
  obtain ⟨-, hload⟩ := h twoTablesMade _ _ writable (Prod.ext made rfl)
  exact ⟨sound, opened, writable, _, Prod.ext made rfl, by decide +kernel, hload (by decide)⟩

end Storage

end PageStore
