-- The tables of a catalog, whatever was asked of it since it was made or opened. Names and
-- ids lead to each other, each table's file is its own and has room for a row on a page,
-- and an id that is handed out was never handed out before and belongs to no table. What
-- is refused changes nothing, not even the id that comes next.
import PageStore.Proofs.Storage.Reopening

namespace PageStore

/-! ## Names and ids -/

/-- Names and ids lead to each other, and every table has a file of its own id and of the page size of
the catalog, on whose pages there is room for a row. -/
structure Catalog.InOrder (c : Catalog) : Prop where
  named : ∀ name id, c.names.get? name = some id ↔ ∃ entry, c.tables.get? id = some entry ∧ entry.name = name
  keyed : ∀ id entry, c.tables.get? id = some entry → entry.file.table = id
  pageSize : ∀ id entry, c.tables.get? id = some entry → entry.file.pageSize = c.pageSize
  room : ∀ id entry, c.tables.get? id = some entry → 0 < entry.file.layout.slots

namespace Catalog

variable {c c' : Catalog}

/-- No table is known. -/
theorem inOrder_of_none {onDisk : Bool} {pageSize : Nat} : InOrder { onDisk, pageSize } where
  named _ _ := by
    constructor
    · exact fun h => nomatch h
    · rintro ⟨_, h, -⟩
      cases h
  keyed _ _ h := nomatch h
  pageSize _ _ h := nomatch h
  room _ _ h := nomatch h

/-- The id that comes next has no part in it. -/
theorem InOrder.withNextId (h : c.InOrder) (nextId : TableId) : InOrder { c with nextId } :=
  ⟨h.named, h.keyed, h.pageSize, h.room⟩

theorem checkFits_ok_iff {name : String} {schema : Schema} {pageSize : Nat} :
    checkFits name schema pageSize = .ok () ↔ 0 < (Layout.of pageSize schema.byteSize).slots := by
  unfold checkFits
  split
  · rename_i hnone
    exact iff_of_false (fun h => nomatch h) (by omega)
  · exact iff_of_true rfl (by omega)

theorem checkFits_eq_error {name : String} {schema : Schema} {pageSize : Nat} {e : Error}
    (h : checkFits name schema pageSize = .error e) :
    (Layout.of pageSize schema.byteSize).slots = 0 ∧ e = .catalog (.doesNotFit name schema.byteSize pageSize) := by
  unfold checkFits at h
  split at h
  · rename_i hnone
    exact ⟨hnone, (Except.error.inj h).symm⟩
  · cases h

theorem InOrder.register (h : c.InOrder) {file : TableFile} {name : String} {storedAs : Option String}
    (registered : c.register file name storedAs = .ok c') : c'.InOrder := by
  obtain ⟨hsize, hfits, hname, hid, rfl⟩ := Storage.register_eq_ok.mp registered
  -- an entry is the new one, at its own id, or was there before
  have hentry : ∀ {id entry}, (c.tables.insert file.table { name, file, storedAs }).get? id = some entry →
      file.table = id ∧ entry = { name, file, storedAs } ∨ c.tables.get? id = some entry := by
    intro id entry hget
    rw [Assoc.get?_insert] at hget
    split at hget
    · rename_i heq
      exact .inl ⟨heq, (Option.some.inj hget).symm⟩
    · exact .inr hget
  constructor
  case named =>
    intro other id
    simp only [Assoc.get?_insert]
    constructor
    · intro hother
      split at hother
      · rename_i heq
        cases hother
        exact ⟨_, if_pos rfl, heq⟩
      · obtain ⟨entry, hget, hentry⟩ := (h.named other id).mp hother
        refine ⟨entry, ?_, hentry⟩
        rw [if_neg, hget]
        rintro rfl
        rw [hid] at hget
        cases hget
    · rintro ⟨entry, hget, rfl⟩
      split at hget
      · rename_i heq
        cases hget
        exact (if_pos rfl).trans (congrArg some heq)
      · have hbefore := (h.named entry.name id).mpr ⟨entry, hget, rfl⟩
        rw [if_neg, hbefore]
        rintro rfl
        rw [hname] at hbefore
        cases hbefore
  case keyed =>
    intro id entry hget
    obtain ⟨heq, rfl⟩ | hbefore := hentry hget
    · exact heq
    · exact h.keyed id entry hbefore
  case pageSize =>
    intro id entry hget
    obtain ⟨-, rfl⟩ | hbefore := hentry hget
    · exact hsize
    · exact h.pageSize id entry hbefore
  case room =>
    intro id entry hget
    obtain ⟨-, rfl⟩ | hbefore := hentry hget
    · exact checkFits_ok_iff.mp hfits
    · exact h.room id entry hbefore

/-! ## Ids -/

/-- No table has the greatest id of all. -/
def Below (ids : List TableId) : Prop := ∀ id ∈ ids, id + 1 < idCount

/-- The search passes over ids that tables have, one by one. -/
theorem freeFrom_passes (below : Below c.tables.keys) (tries : Nat) {id : TableId} (hid : id < idCount) :
    id ≤ c.freeFrom tries id ∧ c.freeFrom tries id < idCount ∧
      (∀ other, id ≤ other → other < c.freeFrom tries id → other ∈ c.tables.keys) ∧
      (c.freeFrom tries id ∈ c.tables.keys → c.freeFrom tries id = id + tries) := by
  induction tries generalizing id with
  | zero => exact ⟨Nat.le_refl id, hid, fun other hle hlt => absurd hlt (Nat.not_lt.mpr hle), fun _ => rfl⟩
  | succ tries ih =>
    unfold freeFrom
    split
    · rename_i htaken
      have hmem : id ∈ c.tables.keys := Assoc.mem_keys.mpr htaken
      have hlt := below id hmem
      have hafter : idAfter id = id + 1 := Nat.mod_eq_of_lt hlt
      obtain ⟨hle, hlast, hpassed, hend⟩ := ih hlt
      rw [hafter]
      refine ⟨Nat.le_of_succ_le hle, hlast, fun other hother hbefore => ?_, fun hfound => ?_⟩
      · obtain rfl | hgreater := Nat.eq_or_lt_of_le hother
        · exact hmem
        · exact hpassed other hgreater hbefore
      · rw [hend hfound]
        exact Nat.succ_add_eq_add_succ ..
    · rename_i hfree
      exact ⟨Nat.le_refl id, hid, fun other hle hlt => absurd hlt (Nat.not_lt.mpr hle),
        fun hmem => absurd (Assoc.mem_keys.mp hmem) hfree⟩

/-- The id that is handed out belongs to no table, since there are more ids to be tried than tables. -/
theorem takeId_fresh (below : Below c.tables.keys) (hnext : c.nextId < idCount) :
    c.nextId ≤ c.takeId.1 ∧ c.takeId.1 < idCount ∧ c.takeId.1 ∉ c.tables.keys := by
  obtain ⟨hle, hlt, hpassed, hend⟩ := freeFrom_passes below c.tables.size hnext
  refine ⟨hle, hlt, fun hmem => ?_⟩
  have hlast : c.takeId.1 = c.nextId + c.tables.size := hend hmem
  have htried : List.range' c.nextId (c.tables.size + 1) ⊆ c.tables.keys := by
    intro other hother
    obtain ⟨hfirst, hbefore⟩ := List.mem_range'_1.mp hother
    obtain heq | hless := Nat.eq_or_lt_of_le (Nat.le_of_lt_succ hbefore)
    · exact (heq.trans hlast.symm) ▸ hmem
    · exact hpassed other hfirst (Nat.lt_of_lt_of_eq hless hlast.symm)
  have hcount := ((List.nodup_range' 1).subperm htried).length_le
  rw [List.length_range', Assoc.size_eq] at hcount
  exact Nat.not_succ_le_self _ hcount

/-- These ids were handed out, and the next one comes behind all of them. -/
structure Counted (ids : List TableId) (c : Catalog) : Prop where
  nodup : ids.Nodup
  passed : ∀ id ∈ ids, id < c.nextId
  nextId : c.nextId < idCount

theorem Counted.not_mem {ids : List TableId} (h : c.Counted ids) (below : Below c.tables.keys) :
    c.takeId.1 ∉ ids := by
  obtain ⟨hle, -⟩ := takeId_fresh below h.nextId
  exact fun hmem => Nat.not_lt.mpr hle (h.passed _ hmem)

/-- One more id is handed out. -/
theorem Counted.takeId {ids : List TableId} (h : c.Counted ids) (below : Below c.tables.keys)
    (hid : c.takeId.1 + 1 < idCount) : c.takeId.2.Counted (ids ++ [c.takeId.1]) := by
  obtain ⟨hle, -⟩ := takeId_fresh below h.nextId
  have hnext : c.takeId.2.nextId = c.takeId.1 + 1 := Nat.mod_eq_of_lt hid
  constructor
  case nodup =>
    refine List.nodup_append.mpr ⟨h.nodup, List.pairwise_singleton .., fun id hmem other hother => ?_⟩
    rintro rfl
    exact h.not_mem below (List.mem_singleton.mp hother ▸ hmem)
  case passed =>
    intro id hmem
    rw [hnext]
    obtain hbefore | hlast := List.mem_append.mp hmem
    · exact Nat.lt_succ_of_lt (Nat.lt_of_lt_of_le (h.passed id hbefore) hle)
    · rw [List.mem_singleton.mp hlast]
      exact Nat.lt_succ_self _
  case nextId => exact idAfter_lt _

end Catalog

/-! ## What is refused -/

namespace CatalogCall

/-- Why a table is not made, or not added, whatever files there are. -/
inductive Refused (c : Catalog) : CatalogCall → Error → Prop
  | inMemory {name schema} (memory : c.onDisk = false) : Refused c (create name schema) (.catalog .inMemory)
  | badName {name schema} (bad : Catalog.validName name = false) :
    Refused c (create name schema) (.catalog (.invalidName name))
  | tooWide {name schema} (wide : (Layout.of c.pageSize schema.byteSize).slots = 0) :
    Refused c (create name schema) (.catalog (.doesNotFit name schema.byteSize c.pageSize))
  | nameTaken {name schema id} (taken : c.names.get? name = some id) :
    Refused c (create name schema) (.duplicateTable name)
  | otherPages {file name} (other : file.pageSize ≠ c.pageSize) :
    Refused c (add file name) (.catalog (.pageBytes name file.pageSize c.pageSize))
  | tooWideToAdd {file name} (wide : file.layout.slots = 0) :
    Refused c (add file name) (.catalog (.doesNotFit name file.schema.byteSize file.pageSize))
  | nameTakenToAdd {file name id} (taken : c.names.get? name = some id) :
    Refused c (add file name) (.duplicateTable name)
  | idTaken {file name entry} (taken : c.tables.get? file.table = some entry) :
    Refused c (add file name) (.catalog (.idTaken file.table))

/-- What a call answers: the id that it gives, if it is one that gives ids. -/
def answer : CatalogCall → Storage → Except Error (Option TableId)
  | create name schema, s => (Storage.createTable name schema s).1.map some
  | add file name, s => (Storage.addTable file name s).1.map fun _ => none
  | takeId, s => (Storage.takeId s).1.map some

/-- The id that was taken to make a table, which is before the table's file is opened. -/
def takenFor (c : Catalog) : Except Error TableId → Option TableId
  | .ok id => some id
  | .error (.file _) => some c.takeId.1
  | .error _ => none

/-- The id that a call takes from the counter. -/
def taken : CatalogCall → Storage → Option TableId
  | create name schema, s => takenFor s.catalog (Storage.createTable name schema s).1
  | add _ _, _ => none
  | takeId, s => some s.catalog.takeId.1

/-- Calls one after the other, with the ids that they took. -/
def handOut : List CatalogCall → Storage → List TableId × Storage
  | [], s => ([], s)
  | call :: rest, s =>
    let (ids, t) := handOut rest (call.run s).2
    ((call.taken s).toList ++ ids, t)

end CatalogCall

open CatalogCall

namespace Catalog

variable {c : Catalog} {file : TableFile} {name : String} {storedAs : Option String} {e : Error}

/-- A table is registered, or there is a reason against it. -/
theorem refused_of_register (h : c.register file name storedAs = .error e) : Refused c (.add file name) e := by
  unfold register at h
  simp only [bind, Except.bind] at h
  split at h
  · rename_i hsize
    cases h
    exact .otherPages hsize
  · split at h
    · rename_i e' hfits
      cases h
      obtain ⟨hnone, rfl⟩ := checkFits_eq_error hfits
      exact .tooWideToAdd hnone
    · split at h
      · rename_i hname
        cases h
        obtain ⟨id, hid⟩ := Option.isSome_iff_exists.mp hname
        exact .nameTakenToAdd hid
      · split at h
        · rename_i htable
          cases h
          obtain ⟨entry, hentry⟩ := Option.isSome_iff_exists.mp htable
          exact .idTaken hentry
        · cases h

/-- A table that passes all checks is not refused, whatever the error is. -/
theorem not_refused_of_checks {schema : Schema} (onDisk : c.onDisk = true) (valid : validName name = true)
    (room : 0 < (Layout.of c.pageSize schema.byteSize).slots) (free : c.names.get? name = none) (e : Error) :
    ¬ Refused c (.create name schema) e := by
  intro h
  cases h with
  | inMemory memory => exact nomatch memory.symm.trans onDisk
  | badName bad => exact nomatch bad.symm.trans valid
  | tooWide wide => exact Nat.ne_of_gt room wide
  | nameTaken taken => exact nomatch taken.symm.trans free

/-- Where there is a reason against a table it is not registered. -/
theorem register_ne_ok (h : Refused c (.add file name) e) {c' : Catalog} :
    c.register file name storedAs ≠ .ok c' := by
  intro hregister
  obtain ⟨hsize, hfits, hname, hid, -⟩ := Storage.register_eq_ok.mp hregister
  cases h with
  | otherPages other => exact other hsize
  | tooWideToAdd wide => exact Nat.ne_of_gt (checkFits_ok_iff.mp hfits) wide
  | nameTakenToAdd taken => exact nomatch taken.symm.trans hname
  | idTaken taken => exact nomatch taken.symm.trans hid

end Catalog

/-! ## What a call does -/

/-- What a call comes to: its answer, the id that it takes, and what is there then. A reason against a table
is found before anything is done, so that after that only an id that a table has could be one. -/
inductive CatalogCall.Does (s : Storage) :
    CatalogCall → Except Error (Option TableId) → Option TableId → Storage → Prop
  | refused {call e} (reason : Refused s.catalog call e) : Does s call (.error e) none s
  | noFile {name schema fault} (passed : ∀ e, ¬ Refused s.catalog (create name schema) e) :
    Does s (create name schema) (.error (.file fault)) (some s.catalog.takeId.1)
      { s with catalog := s.catalog.takeId.2 }
  | idTaken {name schema disk} (passed : ∀ e, ¬ Refused s.catalog (create name schema) e)
    (had : s.catalog.takeId.1 ∈ s.catalog.tables.keys) :
    Does s (create name schema) (.error (.catalog (.idTaken s.catalog.takeId.1))) none
      { catalog := s.catalog.takeId.2, disk }
  | made {name schema file storedAs c disk} (passed : ∀ e, ¬ Refused s.catalog (create name schema) e)
    (table : file.table = s.catalog.takeId.1) (registered : s.catalog.takeId.2.register file name storedAs = .ok c) :
    Does s (create name schema) (.ok (some s.catalog.takeId.1)) (some s.catalog.takeId.1) { catalog := c, disk }
  | added {file name c} (registered : s.catalog.register file name none = .ok c) :
    Does s (add file name) (.ok none) none { s with catalog := c }
  | handedOut : Does s takeId (.ok (some s.catalog.takeId.1)) (some s.catalog.takeId.1)
      { s with catalog := s.catalog.takeId.2 }

namespace Storage

variable {s : Storage}

theorem createTable_does (name : String) (schema : Schema) (s : Storage) :
    (createTable name schema).Ends s fun r t =>
      Does s (create name schema) (r.map some) (takenFor s.catalog r) t := by
  unfold createTable
  refine Step.Ends.of_ok (Step.read_run _ s) ?_
  refine Step.Ends.check (fun hdisk => ?_) (fun h => .refused (.inMemory h))
  refine Step.Ends.check (fun hvalid => ?_) (fun h => .refused (.badName h))
  refine Step.Ends.ofExcept (fun _ hfits => ?_) (fun e h => ?_)
  · refine Step.Ends.check (fun hfree => ?_) (fun h => ?_)
    · have hfree : s.catalog.names.get? name = none := by simpa [Assoc.contains] using hfree
      have hroom := Catalog.checkFits_ok_iff.mp hfits
      have passed : ∀ e, ¬ Refused s.catalog (.create name schema) e :=
        Catalog.not_refused_of_checks hdisk hvalid hroom hfree
      refine Step.Ends.of_ok (Step.update_run _ s) ?_
      cases hname : s.disk.nameOf (fileNameOf name) with
      | error fault => exact Step.Ends.of_error (Step.focus_run (ofName_of_error hname ..)) (.noFile passed)
      | ok fileName =>
        obtain ⟨file, hopen, htable, hschema, hsize⟩ :=
          ofName_of_nameOf hname s.catalog.takeId.1 schema s.catalog.pageSize
        refine Step.Ends.of_ok (Step.focus_run hopen) ?_
        refine Step.Ends.ofExcept (fun c hregister => .made passed htable hregister) (fun e hregister => ?_)
        -- of all reasons against registering the file only its id is left
        cases Catalog.refused_of_register hregister with
        | otherPages other => exact absurd hsize other
        | tooWideToAdd wide =>
          rw [TableFile.layout, hsize, hschema] at wide
          exact absurd wide (Nat.ne_of_gt hroom)
        | nameTakenToAdd taken => exact absurd (hfree.symm.trans taken) (Option.some_ne_none _).symm
        | idTaken taken =>
          rw [htable] at taken ⊢
          exact .idTaken passed (Assoc.mem_keys.mpr (Option.isSome_of_eq_some taken))
    · obtain ⟨id, hid⟩ : ∃ id, s.catalog.names.get? name = some id := by
        simpa [Assoc.contains, Option.isSome_iff_exists] using h
      exact .refused (.nameTaken hid)
  · obtain ⟨hnone, rfl⟩ := Catalog.checkFits_eq_error h
    exact .refused (.tooWide hnone)

/-! ## Catalogs that are made or opened -/

theorem registerAll_inOrder (pageSize : Nat) {c : Catalog} (h : c.InOrder) (defs : List TableDefinition) (d : Disk) :
    (registerAll pageSize c defs).Ends d fun r _ => ∀ c', r = .ok c' → c'.InOrder := by
  induction defs generalizing c d with
  | nil =>
    rintro _ ⟨⟩
    exact h
  | cons t rest ih =>
    unfold registerAll
    refine Step.Ends.bind (P := fun _ _ => True) trivial (fun file d' _ => ?_) ?_
    · refine Step.Ends.ofExcept (fun c' hregister => ih (h.register hregister) d') ?_
      rintro e - _ ⟨⟩
    · rintro e t - _ ⟨⟩

/-- A catalog in memory, over any files, or one of a directory that was just opened. -/
inductive Begins (pageSize : Nat) : Storage → Prop
  | inMemory (disk : Disk) : Begins pageSize { catalog := .inMemory pageSize, disk }
  | opened {d d' : Disk} {c : Catalog} (opened : load pageSize d = (.ok c, d')) :
    Begins pageSize { catalog := c, disk := d' }

theorem Begins.inOrder {pageSize : Nat} (h : Begins pageSize s) :
    s.catalog.InOrder ∧ s.catalog.nextId < Catalog.idCount := by
  cases h with
  | inMemory disk => exact ⟨Catalog.inOrder_of_none, (by decide : 1 < Catalog.idCount)⟩
  | @opened d d' c opened =>
    rw [load_eq] at opened
    cases hlisted : d.listed with
    | error e =>
      rw [hlisted] at opened
      cases opened
    | ok defs =>
      have hnone : Catalog.InOrder { onDisk := true, pageSize } := Catalog.inOrder_of_none
      have hall := registerAll_inOrder pageSize hnone defs d
      rw [hlisted, Step.bind_of_ok (Step.ofExcept_run (.ok defs) d)] at opened
      unfold Step.Ends at hall
      rcases hrun : registerAll pageSize { onDisk := true, pageSize } defs d with ⟨e | c₁, d₁⟩
      · rw [Step.bind_of_error hrun] at opened
        cases opened
      · rw [Step.bind_of_ok hrun] at opened
        cases opened
        rw [hrun] at hall
        exact ⟨(hall c₁ rfl).withNextId _, Catalog.idAfter_lt _⟩

end Storage

namespace CatalogCall

variable {s t : Storage} {call : CatalogCall} {answer : Except Error (Option TableId)} {taken : Option TableId}
  {before ids : List TableId}

theorem run_does (call : CatalogCall) (s : Storage) : Does s call (call.answer s) (call.taken s) (call.run s).2 := by
  cases call with
  | create name schema => exact Storage.createTable_does name schema s
  | add file name =>
    change Does s _ ((Storage.addTable file name s).1.map _) none (Storage.addTable file name s).2
    unfold Storage.addTable
    rw [Step.bind_of_ok (Step.read_run (fun s : Storage => s.catalog) s)]
    cases hregister : s.catalog.register file name none with
    | error e => exact .refused (Catalog.refused_of_register hregister)
    | ok c => exact .added hregister
  | takeId => exact .handedOut

theorem Does.inOrder (h : Does s call answer taken t) (hs : s.catalog.InOrder) : t.catalog.InOrder := by
  cases h with
  | refused => exact hs
  | noFile => exact hs.withNextId _
  | idTaken => exact hs.withNextId _
  | made _ _ registered => exact (hs.withNextId _).register registered
  | added registered => exact hs.register registered
  | handedOut => exact hs.withNextId _

/-- A table that is known stays known. -/
theorem Does.keys (h : Does s call answer taken t) : s.catalog.tables.keys ⊆ t.catalog.tables.keys := by
  have hregister : ∀ {c c' : Catalog} {file : TableFile} {name : String} {storedAs : Option String},
      c.register file name storedAs = .ok c' → c.tables.keys ⊆ c'.tables.keys := by
    intro c c' file name storedAs registered
    have htables := (Catalog.registers_of_register registered).tables
    rw [Assoc.keys, Assoc.keys, htables, List.map_append]
    exact List.subset_append_left ..
  cases h with
  | refused | noFile | idTaken | handedOut => exact List.Subset.refl _
  | made _ _ registered => exact hregister (c := s.catalog.takeId.2) registered
  | added registered => exact hregister registered

/-- The id that a call takes comes behind those that were handed out before. -/
theorem Does.counted (h : Does s call answer taken t) (hs : s.catalog.Counted before)
    (below : Catalog.Below s.catalog.tables.keys) (hids : Catalog.Below (before ++ taken.toList)) :
    t.catalog.Counted (before ++ taken.toList) := by
  have hregister : ∀ {c c' : Catalog} {file : TableFile} {name : String} {storedAs : Option String}
      {ids : List TableId}, c.register file name storedAs = .ok c' → c.Counted ids → c'.Counted ids := by
    intro c c' file name storedAs ids registered hc
    have hnext := (Catalog.registers_of_register registered).nextId
    exact ⟨hc.nodup, hnext ▸ hc.passed, hnext ▸ hc.nextId⟩
  have htake : taken = some s.catalog.takeId.1 →
      s.catalog.takeId.2.Counted (before ++ taken.toList) := by
    rintro rfl
    exact hs.takeId below (hids _ (List.mem_append_right _ List.mem_cons_self))
  cases h with
  | refused => exact (List.append_nil before).symm ▸ hs
  | noFile => exact htake rfl
  | idTaken _ had =>
    obtain ⟨-, -, hfree⟩ := Catalog.takeId_fresh below hs.nextId
    exact absurd had hfree
  | made _ _ registered => exact hregister registered (htake rfl)
  | added registered => exact hregister registered ((List.append_nil before).symm ▸ hs)
  | handedOut => exact htake rfl

/-! ## All calls -/

theorem handOut_keys (calls : List CatalogCall) (s : Storage) :
    s.catalog.tables.keys ⊆ (handOut calls s).2.catalog.tables.keys := by
  induction calls generalizing s with
  | nil => exact List.Subset.refl _
  | cons call rest ih => exact List.Subset.trans (run_does call s).keys (ih _)

theorem handOut_inOrder (calls : List CatalogCall) (hs : s.catalog.InOrder) :
    (handOut calls s).2.catalog.InOrder := by
  induction calls generalizing s with
  | nil => exact hs
  | cons call rest ih => exact ih ((run_does call s).inOrder hs)

theorem handOut_counted (calls : List CatalogCall) (hs : s.catalog.Counted before)
    (below : Catalog.Below (handOut calls s).2.catalog.tables.keys)
    (hids : Catalog.Below (before ++ (handOut calls s).1)) :
    (handOut calls s).2.catalog.Counted (before ++ (handOut calls s).1) := by
  induction calls generalizing s before with
  | nil => exact (List.append_nil before).symm ▸ hs
  | cons call rest ih =>
    have hkeys : s.catalog.tables.keys ⊆ (handOut (call :: rest) s).2.catalog.tables.keys := handOut_keys _ s
    have hsplit : before ++ (handOut (call :: rest) s).1 =
        before ++ (call.taken s).toList ++ (handOut rest (call.run s).2).1 := (List.append_assoc ..).symm
    rw [hsplit] at hids ⊢
    have hfirst := (run_does call s).counted hs (fun id hid => below id (hkeys hid))
      fun id hid => hids id (List.mem_append_left _ hid)
    exact ih hfirst below hids

/-! ## The law -/

/-- A call for which there is a reason against the table is refused for such a reason, and has done nothing. -/
theorem Does.of_reason (h : Does s call answer taken t) {e : Error} (reason : Refused s.catalog call e) :
    (∃ e', Refused s.catalog call e' ∧ answer = .error e') ∧ t = s := by
  cases h with
  | @refused _ e' reason' => exact ⟨⟨e', reason', rfl⟩, rfl⟩
  | noFile passed => exact absurd reason (passed e)
  | idTaken passed => exact absurd reason (passed e)
  | made passed => exact absurd reason (passed e)
  | added registered => exact absurd registered (Catalog.register_ne_ok reason)
  | handedOut => exact nomatch reason

/-- A call that answers with an id gives the one that it has taken. -/
theorem Does.taken_of_answer (h : Does s call answer taken t) {id : TableId} (gives : answer = .ok (some id)) :
    id = s.catalog.takeId.1 ∧ taken = some id := by
  cases h with
  | refused | noFile | idTaken | added => cases gives
  | made | handedOut =>
    cases gives
    exact ⟨rfl, rfl⟩

/-- A table that was made, or added, is known by its name. -/
theorem Does.makes {name : String} {schema : Schema} (h : Does s (create name schema) answer taken t) {id : TableId}
    (gives : answer = .ok (some id)) : t.catalog.idOf? name = some id := by
  cases h with
  | refused | noFile | idTaken => cases gives
  | made _ table registered =>
    cases gives
    obtain ⟨-, -, -, -, rfl⟩ := Storage.register_eq_ok.mp registered
    exact (Assoc.get?_insert ..).trans ((if_pos rfl).trans (congrArg some table))

theorem Does.adds {file : TableFile} {name : String} (h : Does s (add file name) answer taken t)
    (gives : answer = .ok none) : t.catalog.idOf? name = some file.table := by
  cases h with
  | refused => cases gives
  | added registered =>
    obtain ⟨-, -, -, -, rfl⟩ := Storage.register_eq_ok.mp registered
    exact (Assoc.get?_insert ..).trans (if_pos rfl)

/-- A call that fails was refused, or the file of its table could not be opened. -/
theorem Does.error (h : Does s call answer taken t) (below : Catalog.Below s.catalog.tables.keys)
    (hnext : s.catalog.nextId < Catalog.idCount) {e : Error} (fails : answer = .error e) :
    Refused s.catalog call e ∨ ∃ fault, e = .file fault := by
  cases h with
  | refused reason =>
    cases fails
    exact .inl reason
  | noFile =>
    cases fails
    exact .inr ⟨_, rfl⟩
  | idTaken _ had =>
    obtain ⟨-, -, hfree⟩ := Catalog.takeId_fresh below hnext
    exact absurd had hfree
  | made | added | handedOut => cases fails

end CatalogCall

namespace Storage

/-- Whatever was asked of a catalog since it was made or opened: its names and its ids lead to each other,
and each table's file has the table's id, the catalog's pages and room for a row on each. A table that is
made or added is known by its name then. Where there is a reason against a table the call is refused and
changes nothing. As long as the greatest id of all is not among those of the tables and those handed out,
a call fails only for such a reason or for its file, and the ids handed out differ, from each other and
from that of the next call that gives one, which no table has. -/
theorem a_catalog_stays_in_order {pageSize : Nat} {s₀ s : Storage} (begins : Begins pageSize s₀)
    (calls : List CatalogCall) {ids : List TableId} (run : CatalogCall.handOut calls s₀ = (ids, s)) :
    s.catalog.InOrder ∧
    (∀ name schema id, (create name schema).answer s = .ok (some id) →
      ((create name schema).run s).2.catalog.idOf? name = some id) ∧
    (∀ file name, (add file name).answer s = .ok none →
      ((add file name).run s).2.catalog.idOf? name = some file.table) ∧
    (∀ call e, Refused s.catalog call e →
      (∃ e', Refused s.catalog call e' ∧ call.answer s = .error e') ∧ (call.run s).2 = s) ∧
    (Catalog.Below (s.catalog.tables.keys ++ ids) → ids.Nodup ∧
      (∀ (call : CatalogCall) e, call.answer s = .error e →
        Refused s.catalog call e ∨ ∃ fault, e = .file fault) ∧
      ∀ (call : CatalogCall) id, call.answer s = .ok (some id) →
        call.taken s = some id ∧ id ∉ s.catalog.tables.keys ∧ id ∉ ids) := by
  obtain ⟨hbegin, hnext⟩ := begins.inOrder
  have horder := CatalogCall.handOut_inOrder calls hbegin
  rw [run] at horder
  refine ⟨horder, fun name schema id h => (CatalogCall.run_does _ s).makes h,
    fun file name h => (CatalogCall.run_does _ s).adds h,
    fun call e reason => (CatalogCall.run_does call s).of_reason reason, fun below => ?_⟩
  have hkeys : Catalog.Below s.catalog.tables.keys := fun id hid => below id (List.mem_append_left _ hid)
  have hids : Catalog.Below ids := fun id hid => below id (List.mem_append_right _ hid)
  have hnone : s₀.catalog.Counted [] := ⟨List.nodup_nil, fun _ h => (nomatch h), hnext⟩
  have hcounted := CatalogCall.handOut_counted calls hnone (by rwa [run]) (by rwa [run])
  rw [run] at hcounted
  refine ⟨hcounted.nodup, fun call e h => (CatalogCall.run_does call s).error hkeys hcounted.nextId h, ?_⟩
  intro call id h
  obtain ⟨rfl, htaken⟩ := (CatalogCall.run_does call s).taken_of_answer h
  obtain ⟨-, -, hfree⟩ := Catalog.takeId_fresh hkeys hcounted.nextId
  exact ⟨htaken, hfree, hcounted.not_mem hkeys⟩

/-- A directory whose list names one table, and the tables that are known when it is opened. -/
def oneListed : Storage :=
  let file : TableFile := { table := 2, schema := oneColumn, pages := { path := "d/t.dat", pageSize := 64 }, file := 1 }
  { catalog :=
      { onDisk := true, pageSize := 64
        tables := Assoc.empty.insert 2 { name := "t", file, storedAs := some "t.dat" }
        names := Assoc.empty.insert "t" 2, nextId := 3 }
    disk :=
      { directory := "d", names := (Assoc.empty.insert catalogFile 0).insert "t.dat" 1
        files := [TableDefinition.encodeAll [⟨2, "t", "t.dat", oneColumn⟩], []] } }

/-- A table is added whose id is ahead of the counter, and two are made; one is refused in between. -/
def oneAheadOfTheCounter : List CatalogCall :=
  [add { table := 4, schema := oneColumn, pages := { path := "x", pageSize := 64 }, file := 9 } "x",
    create "u" oneColumn, create "x" oneColumn, create "v" oneColumn, .takeId]

theorem an_id_ahead_of_the_counter_is_passed_over :
    load 64 oneListed.disk = (.ok oneListed.catalog, oneListed.disk) ∧
    ∃ s, CatalogCall.handOut oneAheadOfTheCounter oneListed = ([3, 5, 6], s) ∧
      s.catalog.tables.keys = [2, 4, 3, 5] ∧ Catalog.Below (s.catalog.tables.keys ++ [3, 5, 6]) ∧
      s.catalog.InOrder ∧ Refused s.catalog (create "t" oneColumn) (.duplicateTable "t") ∧
      ((create "t" oneColumn).run s).2 = s ∧ s.catalog.takeId.1 = 7 ∧ 7 ∉ s.catalog.tables.keys := by
  have opened : load 64 oneListed.disk = (.ok oneListed.catalog, oneListed.disk) :=
    Prod.ext (Step.eq_ok_of_toOption (by decide +kernel)) (by decide +kernel)
  have ids : (CatalogCall.handOut oneAheadOfTheCounter oneListed).1 = [3, 5, 6] := by decide +kernel
  have keys : (CatalogCall.handOut oneAheadOfTheCounter oneListed).2.catalog.tables.keys = [2, 4, 3, 5] := by
    decide +kernel
  have below : Catalog.Below ((CatalogCall.handOut oneAheadOfTheCounter oneListed).2.catalog.tables.keys ++
      [3, 5, 6]) := by
    rw [keys]
    unfold Catalog.Below
    decide +kernel
  have next : (CatalogCall.handOut oneAheadOfTheCounter oneListed).2.catalog.takeId.1 = 7 := by decide +kernel
  have reason : Refused (CatalogCall.handOut oneAheadOfTheCounter oneListed).2.catalog (create "t" oneColumn)
      (.duplicateTable "t") := by
    refine .nameTaken (show _ = some 2 from ?_)
    decide +kernel
  obtain ⟨order, -, -, refused, rest⟩ :=
    a_catalog_stays_in_order (.opened opened) oneAheadOfTheCounter (Prod.ext ids rfl)
  obtain ⟨-, -, fresh⟩ := rest below
  obtain ⟨-, free, -⟩ := fresh .takeId 7 (congrArg (fun id => Except.ok (some id)) next)
  exact ⟨opened, _, Prod.ext ids rfl, keys, below, order, reason, (refused _ _ reason).2, next, free⟩

end Storage

end PageStore
