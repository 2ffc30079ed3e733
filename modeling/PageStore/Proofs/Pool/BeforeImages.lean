-- The two ways back. A page in memory keeps the bytes that it had when it was read or last
-- written, and there are bytes of it in its file. They are the same bytes at all times, be
-- they such as the page would be written with or not, so that it does not matter from which
-- of them a page is taken back.
import PageStore.Proofs.Pool.Ended

namespace PageStore.Pool

/-- The bytes that a page keeps are those of its file, and this is the page that they are read as. -/
structure TwoWaysBack (s : Storage) (id : PageId) (page stored : Page) : Prop where
  bytes : s.bytesAt? id = some page.beforeImage
  kept : page.before = .ok stored
  file : s.readPage id = .ok stored
  settled : stored.dirtiedBy = none
  clean : page.dirtiedBy = none → page = stored

theorem Copy.twoWaysBack {s : Storage} {id : PageId} {stored page : Page} (h : Copy stored page)
    (hstored : s.readPage id = .ok stored) : TwoWaysBack s id page stored := by
  obtain ⟨file, bs, hs⟩ := Storage.stored_of_readPage hstored
  have himage : page.beforeImage = bs := (congrArg Page.beforeImage h.same).trans hs.read.image
  obtain ⟨hid, hschema, hsize⟩ := h.parts
  refine ⟨himage ▸ hs.bytesAt?, ?_, hstored, hs.read.clean, h.clean⟩
  rw [Page.before, hid, hschema, hsize, hs.read.place, hs.read.columns, hs.read.wide, himage]
  exact hs.decoded

theorem Faithful.twoWaysBack {p : Pool} (h : Faithful p) {id : PageId} {page : Page}
    (hpage : p.page? id = some page) : ∃ stored, TwoWaysBack p.storage id page stored := by
  obtain ⟨stored, hstored, hcopy⟩ := h.pages id page hpage
  exact ⟨stored, hcopy.twoWaysBack hstored⟩

/-- A machine that reads the file there gets the bytes that the page keeps. -/
theorem TwoWaysBack.readWord {s : Storage} {table : TableId} {number : UInt32} {page stored : Page}
    (h : TwoWaysBack s ⟨table, number.toNat⟩ page stored) (sizes : s.SizesInWords) :
    ∃ file, s.catalog.tableFile? table = some file ∧
      file.pages.readWord (file.content s.disk) number file.pageSize = .ok page.beforeImage := by
  obtain ⟨file, bs, hs⟩ := Storage.stored_of_readPage h.file
  obtain rfl : page.beforeImage = bs := Option.some.inj (h.bytes.symm.trans hs.bytesAt?)
  have hreaches : file.pages.Reaches number.toNat :=
    PageFile.reaches_of_lt (sizes table file hs.known) number.toNat_lt
  exact ⟨file, hs.known, (hreaches.sameInWords.read _ _).trans hs.bytes⟩

/-- A transaction that is given up takes its pages back to what they keep. -/
theorem abort_before (tx : TxId) {p : Pool} (hp : Faithful p) :
    ∃ q, complete tx .abort p = (.ok (), q) ∧ ∀ id page, p.page? id = some page →
      page.dirtiedBy = some tx → ∃ stored, page.before = .ok stored ∧ q.page? id = some stored := by
  obtain ⟨m, hm, hrun⟩ := abort_run tx hp
  refine ⟨_, hrun, fun id page hpage hdirty => ?_⟩
  obtain ⟨stored, hback⟩ := hp.twoWaysBack hpage
  have hrestored := restored_of_changed hp hpage hdirty
  rw [hback.file, Except.ok.injEq] at hrestored
  refine ⟨stored, hback.kept, ?_⟩
  change m.page? id = some stored
  rw [hm.pages, if_pos (mem_dirtiedBy.mpr ⟨page, hpage, hdirty⟩), hpage, hrestored]
  rfl

/-- Whatever was asked of a pool over tables with files of their own, whose pages a machine can number, a page
in memory keeps exactly the bytes of its file, as a machine reads them there. So they can be read, as the very page
that is read from the file, which is the page itself if nobody changed it; and if it was changed, they are what
it goes back to. -/
theorem a_page_in_memory_keeps_the_bytes_of_its_file {storage : Storage} (own : storage.OwnFiles)
    {config : Config} {pool : Pool} (new : Pool.new storage config = .ok pool) {p : Pool}
    (reached : Undisturbed pool p) (inWords : p.storage.InWords) :
    (∀ id page, p.page? id = some page → ∃ stored, TwoWaysBack p.storage id page stored) ∧
    (∀ table (number : UInt32) page, p.page? ⟨table, number.toNat⟩ = some page →
      ∃ file, p.catalog.tableFile? table = some file ∧
        file.pages.readWord (file.content p.disk) number file.pageSize = .ok page.beforeImage) ∧
    ∀ tx, ∃ q, complete tx .abort p = (.ok (), q) ∧ ∀ id page, p.page? id = some page →
      page.dirtiedBy = some tx → ∃ stored, page.before = .ok stored ∧ q.page? id = some stored := by
  have hfaithful := (reached.sure (sure_of_new own new)).faithful
  refine ⟨fun _ _ => hfaithful.twoWaysBack, fun table number page hpage => ?_,
    fun tx => abort_before tx hfaithful⟩
  obtain ⟨stored, hback⟩ := hfaithful.twoWaysBack hpage
  exact hback.readWord inWords.sizes

/-- The bytes of a page with one row, such as no page is written with. -/
def oddBytes : Bytes := 1 :: 128 :: List.replicate 62 7

def oddPage : Storage :=
  Storage.oneTable.placed { table := 1, schema := ⟨[⟨"n", .int⟩]⟩, pages := ⟨"numbers.dat", 64⟩, file := 0 } 0
    oddBytes

def roomOverOdd : Pool := { config := { capacity := 2, pageSize := 64 }, storage := oddPage }

/-- One transaction puts in a row, beside another one that looks at the page before and is over then. -/
def besideALook : List Call :=
  [.fetch [] 8 ⟨1, 0⟩ .shared, .release 8 ⟨1, 0⟩,
    .insert 7 1 { schema := ⟨[⟨"n", .int⟩]⟩, fields := [.int 5] }, .complete 8 .commit]

theorem odd_bytes_are_kept_beside_a_change :
    oddPage.OwnFiles ∧ Pool.new oddPage { capacity := 2, pageSize := 64 } = .ok roomOverOdd ∧
    Undisturbed roomOverOdd (besideALook.foldl after roomOverOdd) ∧
    (besideALook.foldl after roomOverOdd).storage.InWords ∧
    ∃ page stored, (besideALook.foldl after roomOverOdd).page? ⟨1, 0⟩ = some page ∧
      page.beforeImage = oddBytes ∧ page.data.toOption ≠ some oddBytes ∧ stored.data.toOption ≠ some oddBytes ∧
      TwoWaysBack (besideALook.foldl after roomOverOdd).storage ⟨1, 0⟩ page stored ∧
      ∃ q, complete 7 .abort (besideALook.foldl after roomOverOdd) = (.ok (), q) ∧
        q.page? ⟨1, 0⟩ = some stored := by
  have own : oddPage.OwnFiles := Storage.ownFiles_oneTable.placed _ 0 oddBytes
  have new : Pool.new oddPage { capacity := 2, pageSize := 64 } = .ok roomOverOdd := rfl
  have reached : Undisturbed roomOverOdd (besideALook.foldl after roomOverOdd) :=
    undisturbed_foldl .start (by decide)
  have inWords : (besideALook.foldl after roomOverOdd).storage.InWords := by decide +kernel
  obtain ⟨hkeeps, -, haborts⟩ := a_page_in_memory_keeps_the_bytes_of_its_file own new reached inWords
  have hdata : ((besideALook.foldl after roomOverOdd).page? ⟨1, 0⟩).map (fun page =>
      (page.beforeImage, page.dirtiedBy, page.data.toOption != some oddBytes,
        (page.before.bind Page.data).toOption != some oddBytes)) = some (oddBytes, some 7, true, true) := by
    decide +kernel
  obtain ⟨page, hpage, hfacts⟩ := Option.map_eq_some_iff.mp hdata
  simp only [Prod.mk.injEq, bne_iff_ne] at hfacts
  obtain ⟨himage, hdirty, hdiffers, hodd⟩ := hfacts
  obtain ⟨stored, hback⟩ := hkeeps _ page hpage
  obtain ⟨q, hrun, hpages⟩ := haborts 7
  obtain ⟨again, hkept, hthere⟩ := hpages _ page hpage hdirty
  rw [hback.kept] at hkept hodd
  obtain rfl : stored = again := Except.ok.inj hkept
  exact ⟨own, new, reached, inWords, page, stored, hpage, himage, hdiffers, hodd, hback, q, hrun, hthere⟩

end PageStore.Pool
