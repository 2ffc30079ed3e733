-- A file as an array of pages. Page `i` takes the bytes from `i * size` to
-- `(i + 1) * size`; there is nothing else in the file. Reading and writing are
-- functions of the file's content.
import PageStore.Error

namespace PageStore

structure PageFile where
  /-- The path that messages name. -/
  path : String
  pageSize : Nat
  deriving Repr, DecidableEq

namespace PageFile

/-- A buffer that is not one page long is refused before anything else happens. -/
def checkLength (f : PageFile) (length : Nat) : Except Error Unit :=
  if length = f.pageSize then .ok () else .error (.file (.bufferLength f.pageSize length))

/-- The whole pages of a file; bytes behind the last whole page do not count. -/
def numPages (f : PageFile) (content : Bytes) : Nat := content.length / f.pageSize

/-- Reads a page into a buffer of `length` bytes. -/
def read (f : PageFile) (content : Bytes) (page length : Nat) : Except Error Bytes := do
  f.checkLength length
  if content.length < page * f.pageSize + f.pageSize then .error (.file (.beyondEnd page f.path))
  else .ok ((content.drop (page * f.pageSize)).take f.pageSize)

/-- The content with `data` from `offset` on, zeros filling what lies between the old end and there. -/
def overwrite (content : Bytes) (offset : Nat) (data : Bytes) : Bytes :=
  Bytes.fit offset content ++ data ++ content.drop (offset + data.length)

/-- The content after a page is written. -/
def write (f : PageFile) (content : Bytes) (page : Nat) (data : Bytes) : Except Error Bytes := do
  f.checkLength data.length
  .ok (overwrite content (page * f.pageSize) data)

/-- Writes behind the last whole page and gives the number of the new page. -/
def append (f : PageFile) (content : Bytes) (data : Bytes) : Except Error (Nat × Bytes) := do
  let page := f.numPages content
  let content ← f.write content page data
  .ok (page, content)

/-! ## Words

The numbers above have no end. A machine numbers the pages with 32 bits and counts bytes with 64, and what
goes beyond is lost. These are the operations in its words. Within the bounds they come to the same, and
where a law of a file, or of what is kept in files, is to hold for a machine, it asks for the bounds. -/

/-- `numPages` as a machine gives it. -/
def numPagesWord (f : PageFile) (content : Bytes) : UInt32 := .ofNat (f.numPages content)

/-- Where a page begins. -/
def beginWord (f : PageFile) (page : UInt32) : UInt64 := page.toUInt64 * .ofNat f.pageSize

/-- Where it ends. -/
def endWord (f : PageFile) (page : UInt32) : UInt64 := f.beginWord page + .ofNat f.pageSize

/-- `read` as a machine carries it out. A page whose end was cut off may seem to be there. -/
def readWord (f : PageFile) (content : Bytes) (page : UInt32) (length : Nat) : Except Error Bytes := do
  f.checkLength length
  if content.length < (f.endWord page).toNat then .error (.file (.beyondEnd page.toNat f.path))
  else if content.length < (f.beginWord page).toNat + f.pageSize then .error (.file .short)
  else .ok ((content.drop (f.beginWord page).toNat).take f.pageSize)

/-- `write` as a machine carries it out. -/
def writeWord (f : PageFile) (content : Bytes) (page : UInt32) (data : Bytes) : Except Error Bytes := do
  f.checkLength data.length
  .ok (overwrite content (f.beginWord page).toNat data)

/-- `append` as a machine carries it out. -/
def appendWord (f : PageFile) (content : Bytes) (data : Bytes) : Except Error (UInt32 × Bytes) := do
  let page := f.numPagesWord content
  let content ← f.writeWord content page data
  .ok (page, content)

/-- The whole pages of a file can be counted with 32 bits. -/
def Counted (f : PageFile) (content : Bytes) : Prop := f.numPages content < 0x100000000

/-- The bytes up to the end of a page can be counted with 64 bits. -/
def Reaches (f : PageFile) (page : Nat) : Prop := (page + 1) * f.pageSize < 0x10000000000000000

instance (f : PageFile) (content : Bytes) : Decidable (f.Counted content) :=
  inferInstanceAs (Decidable (_ < _))

instance (f : PageFile) (page : Nat) : Decidable (f.Reaches page) := inferInstanceAs (Decidable (_ < _))

/-- A machine reads and writes the page at its place. -/
structure SameInWords (f : PageFile) (page : UInt32) : Prop where
  read : ∀ content length, f.readWord content page length = f.read content page.toNat length
  write : ∀ content data, f.writeWord content page data = f.write content page.toNat data

section Words

variable {f : PageFile} {content : Bytes} {page : UInt32}

theorem toNat_numPagesWord (h : f.Counted content) : (f.numPagesWord content).toNat = f.numPages content :=
  Nat.mod_eq_of_lt h

/-- The last page that 32 bits can number ends before 2 ^ 64 if its size is a number of 32 bits too. -/
theorem reaches_of_lt {number : Nat} (hsize : f.pageSize < 0x100000000) (hnumber : number < 0x100000000) :
    f.Reaches number := by
  have hle : (number + 1) * f.pageSize ≤ 0x100000000 * 0xFFFFFFFF := Nat.mul_le_mul hnumber (Nat.le_of_lt_succ hsize)
  unfold Reaches
  omega

theorem toNat_beginWord (h : f.Reaches page.toNat) : (f.beginWord page).toNat = page.toNat * f.pageSize := by
  unfold Reaches at h
  rw [Nat.succ_mul] at h
  have hsize : (UInt64.ofNat f.pageSize).toNat = f.pageSize := Nat.mod_eq_of_lt (by omega)
  rw [beginWord, UInt64.toNat_mul, hsize, UInt32.toNat_toUInt64]
  exact Nat.mod_eq_of_lt (by omega)

theorem toNat_endWord (h : f.Reaches page.toNat) :
    (f.endWord page).toNat = page.toNat * f.pageSize + f.pageSize := by
  have hbegin := toNat_beginWord h
  unfold Reaches at h
  rw [Nat.succ_mul] at h
  have hsize : (UInt64.ofNat f.pageSize).toNat = f.pageSize := Nat.mod_eq_of_lt (by omega)
  rw [endWord, UInt64.toNat_add, hbegin, hsize]
  exact Nat.mod_eq_of_lt h

theorem readWord_eq (content : Bytes) (h : f.Reaches page.toNat) (length : Nat) :
    f.readWord content page length = f.read content page.toNat length := by
  rw [readWord, read, toNat_beginWord h, toNat_endWord h]
  by_cases hend : content.length < page.toNat * f.pageSize + f.pageSize <;> simp only [hend, if_true, if_false]

theorem writeWord_eq (content : Bytes) (h : f.Reaches page.toNat) (data : Bytes) :
    f.writeWord content page data = f.write content page.toNat data := by
  rw [writeWord, write, toNat_beginWord h]

theorem Reaches.sameInWords (h : f.Reaches page.toNat) : f.SameInWords page where
  read content := readWord_eq content h
  write content := writeWord_eq content h

theorem appendWord_eq (counted : f.Counted content) (h : f.Reaches (f.numPages content)) (data : Bytes) :
    (f.appendWord content data).map (fun r => (r.1.toNat, r.2)) = f.append content data := by
  have hpage := toNat_numPagesWord counted
  have hwrite := writeWord_eq content (hpage.symm ▸ h) data
  simp only [appendWord, append, hwrite, hpage]
  cases f.write content (f.numPages content) data <;> simp [hpage, Except.map, bind, Except.bind]

end Words

/-! ## Laws -/

theorem length_overwrite (content : Bytes) (offset : Nat) (data : Bytes) :
    (overwrite content offset data).length = max content.length (offset + data.length) := by
  simp only [overwrite, List.length_append, Bytes.length_fit, List.length_drop]
  omega

theorem take_drop_overwrite (content : Bytes) (offset : Nat) (data : Bytes) :
    ((overwrite content offset data).drop offset).take data.length = data := by
  have h : overwrite content offset data =
      Bytes.fit offset content ++ (data ++ content.drop (offset + data.length)) := by
    simp [overwrite]
  rw [h, List.drop_append_of_le_length (by simp), List.drop_of_length_le (by simp)]
  simp

end PageFile

end PageStore
