-- What the pages in memory have to do with the files. Every page in memory is a copy
-- of the one in its file, with other slots and a mark if a transaction changed it,
-- and exactly the same if none did. So it does not matter whether a page that nobody
-- changed is taken from memory or read again, and a changed page can always be
-- written, or be read again from its file.
import PageStore.Proofs.Pool.Marks

namespace PageStore.Pool

/-- A page in memory beside the page of its file. -/
structure Copy (stored page : Page) : Prop where
  same : page = { stored with slots := page.slots, dirtiedBy := page.dirtiedBy }
  sound : page.Sound
  clean : page.dirtiedBy = none → page = stored

theorem Copy.parts {stored page : Page} (h : Copy stored page) :
    page.id = stored.id ∧ page.schema = stored.schema ∧ page.size = stored.size := by
  rw [h.same]
  exact ⟨rfl, rfl, rfl⟩

structure Faithful (p : Pool) : Prop where
  own : p.storage.OwnFiles
  pages : ∀ id page, p.page? id = some page →
    ∃ stored, p.storage.readPage id = .ok stored ∧ Copy stored page

theorem copy_of_readPage {s : Storage} {id : PageId} {page : Page} (h : s.readPage id = .ok page) :
    Copy page page :=
  ⟨rfl, Storage.sound_of_readPage h, fun _ => rfl⟩

/-- Where pages of `q` are pages of `p` that are stored as before, only the others are to be looked at. -/
theorem Faithful.of_pages {p q : Pool} (hp : Faithful p) (own : q.storage.OwnFiles)
    (h : ∀ id page, q.page? id = some page →
      (p.page? id = some page ∧
        ∀ stored, p.storage.readPage id = .ok stored → q.storage.readPage id = .ok stored) ∨
      ∃ stored, q.storage.readPage id = .ok stored ∧ Copy stored page) : Faithful q := by
  refine ⟨own, ?_⟩
  intro id page hpage
  rcases h id page hpage with ⟨hold, hread⟩ | hnew
  · obtain ⟨stored, hstored, hcopy⟩ := hp.pages id page hold
    exact ⟨stored, hread stored hstored, hcopy⟩
  · exact hnew

/-- A page that nobody changed is the one in its file. -/
theorem Faithful.clean {p : Pool} (hp : Faithful p) {id : PageId} {page : Page}
    (hpage : p.page? id = some page) (hclean : page.dirtiedBy = none) :
    p.storage.readPage id = .ok page := by
  obtain ⟨stored, hstored, hcopy⟩ := hp.pages id page hpage
  rw [hstored, hcopy.clean hclean]

theorem Faithful.keyed {p : Pool} (hp : Faithful p) : Keyed p := by
  intro id page hpage
  obtain ⟨stored, hstored, hcopy⟩ := hp.pages id page hpage
  exact hcopy.parts.1.trans (Storage.id_of_readPage hstored)

/-! ## Quiet moves -/

theorem Quiet.faithful {start : LockTable} {tx : TxId} {p q : Pool} (move : Quiet start tx p q)
    (hp : Faithful p) : Faithful q := by
  have hsame : ∀ (q : Pool) (id : PageId) (page : Page), q.storage = p.storage →
      p.page? id = some page → p.page? id = some page ∧
        ∀ stored, p.storage.readPage id = .ok stored → q.storage.readPage id = .ok stored :=
    fun q id page hs hpage => ⟨hpage, fun stored hstored => hs ▸ hstored⟩
  cases move with
  | look move =>
    cases move with
    | lock => exact ⟨hp.own, hp.pages⟩
    | use => exact ⟨hp.own, hp.pages⟩
    | drop busy victim =>
      refine hp.of_pages hp.own fun id page hpage => .inl ?_
      rw [page?_without] at hpage
      split at hpage
      · cases hpage
      · exact hsame _ id page rfl hpage
    | load id page absent stored =>
      refine hp.of_pages hp.own fun other page' hpage => ?_
      rw [page?_withFrame] at hpage
      split at hpage
      · rename_i heq
        cases hpage
        exact .inr ⟨page, heq ▸ stored, copy_of_readPage stored⟩
      · exact .inl (hsame _ other page' rfl hpage)
  | giveBack => exact ⟨hp.own, hp.pages⟩
  | grow table file known =>
    exact hp.of_pages (hp.own.placed file _ _) fun id page hpage =>
      .inl ⟨hpage, fun stored hstored => Storage.readPage_grown hp.own known hstored⟩

theorem Quiets.faithful {start : LockTable} {tx : TxId} {p q : Pool} (h : Quiets start tx p q)
    (hp : Faithful p) : Faithful q := by
  induction h with
  | refl => exact hp
  | tail _ move ih => exact move.faithful ih

theorem Looks.faithful {tx : TxId} {p q : Pool} (h : Looks tx p q) (hp : Faithful p) : Faithful q :=
  Quiets.faithful (Quiets.of_looks h : Quiets p.locks tx p q) hp

/-! ## Changes -/

theorem Copy.withSlot {stored page : Page} (h : Copy stored page) (slot : Nat)
    {value : Option (List Field)} (hfit : ∀ fields, value = some fields → Row.Fit page.schema fields)
    (tx : TxId) : Copy stored ((page.withSlot slot value).mark (some tx)) := by
  refine ⟨?_, (h.sound.withSlot slot hfit).mark _, fun hclean => by cases hclean⟩
  rw [h.same]
  rfl

theorem Copy.mark {stored page : Page} (h : Copy stored page) (tx : TxId) :
    Copy stored (page.mark (some tx)) := by
  refine ⟨?_, h.sound.mark _, fun hclean => by cases hclean⟩
  rw [h.same]
  rfl

/-- A page in memory may become another copy of the page in its file. -/
theorem Faithful.withPage {p : Pool} (hp : Faithful p) {id : PageId} {page : Page} {f : Page → Page}
    (hpage : p.page? id = some page) (hcopy : ∀ stored, Copy stored page → Copy stored (f page)) :
    Faithful (p.withPage id f) := by
  refine hp.of_pages hp.own fun other page' hother => ?_
  rw [page?_withPage] at hother
  split at hother
  · rename_i heq
    subst heq
    rw [hpage] at hother
    cases hother
    obtain ⟨stored, hstored, h⟩ := hp.pages _ _ hpage
    exact .inr ⟨stored, hstored, hcopy stored h⟩
  · exact .inl ⟨hother, fun _ hstored => hstored⟩

theorem Sets.faithful {tx : TxId} {place : RecordId} {old new : Option (List Field)} {page : Page}
    {m q : Pool} (h : Sets tx place old new page m q)
    (hfit : ∀ fields, new = some fields → Row.Fit page.schema fields) (hm : Faithful m) :
    Faithful q := by
  have hchanged : Faithful (m.changed tx place.page (page.withSlot place.slot new)) :=
    hm.withPage h.there fun stored hcopy => hcopy.withSlot place.slot hfit tx
  rw [h.result]
  exact ⟨hchanged.own, hchanged.pages⟩

/-! ## Writing -/

/-- What it takes to write a changed page, and what comes of it. -/
structure Writes (p : Pool) (id : PageId) (page : Page) (file : TableFile) (bs : Bytes) : Prop where
  known : p.catalog.tableFile? id.table = some file
  number : page.id = id
  bytes : page.data = .ok bs
  length : bs.length = file.pageSize
  room : id.number * file.pageSize + file.pageSize ≤ (file.content p.disk).length
  decoded : Page.ofBytes id file.schema file.pageSize bs =
    .ok { page with dirtiedBy := none, beforeImage := bs }

/-- A page in memory can be written. -/
theorem Faithful.writes {p : Pool} (hp : Faithful p) {id : PageId} {page : Page}
    (hpage : p.page? id = some page) : ∃ file bs, Writes p id page file bs := by
  obtain ⟨stored, hstored, hcopy⟩ := hp.pages id page hpage
  obtain ⟨file, old, hs⟩ := Storage.stored_of_readPage hstored
  obtain ⟨bs, hbs, hlen, hdecode⟩ := hcopy.sound.data
  have hid : page.id = id := hp.keyed id page hpage
  have hschema : page.schema = file.schema := hcopy.parts.2.1.trans hs.read.columns
  have hsize : page.size = file.pageSize := hcopy.parts.2.2.trans hs.read.wide
  refine ⟨file, bs, hs.known, hid, hbs, hlen.trans hsize, hs.in_file, ?_⟩
  rw [← hid, ← hschema, ← hsize]
  exact hdecode

end PageStore.Pool
