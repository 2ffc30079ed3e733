-- What a page written into a table's file does to the files: the page is read back
-- as it was written, and every other page of every table is read as before.
import PageStore.Catalog.Storage
import PageStore.Proofs.Page.Slots

namespace PageStore

/-! ## Bytes -/

namespace PageFile

theorem getElem?_overwrite (content : Bytes) (offset : Nat) (data : Bytes) (i : Nat) :
    (overwrite content offset data)[i]? =
      if i < offset then some (content[i]?.getD 0)
      else if i < offset + data.length then data[i - offset]?
      else content[i]? := by
  have hfit : (Bytes.fit offset content).length = offset := Bytes.length_fit offset content
  unfold overwrite
  rw [List.append_assoc]
  split
  · rename_i hi
    rw [List.getElem?_append_left (by omega), Bytes.fit]
    by_cases hc : i < content.length
    · rw [List.getElem?_append_left (by simp; omega), List.getElem?_take_of_lt hi]
      simp [hc]
    · rw [List.getElem?_append_right (by simp; omega), List.getElem?_eq_none (by omega : content.length ≤ i)]
      simp only [Bytes.zeros, List.getElem?_replicate, List.length_take, Option.getD_none]
      rw [if_pos (by omega)]
  · rename_i hi
    rw [List.getElem?_append_right (by omega), hfit]
    split
    · rw [List.getElem?_append_left (by omega)]
    · rw [List.getElem?_append_right (by omega), List.getElem?_drop]
      congr 1
      omega

theorem overwrite_comm_of_le (content : Bytes) {a b : Nat} {data other : Bytes}
    (h : a + data.length ≤ b) :
    overwrite (overwrite content a data) b other = overwrite (overwrite content b other) a data := by
  apply List.ext_getElem?
  intro i
  simp only [getElem?_overwrite]
  by_cases ha : i < a
  · simp [ha, (by omega : i < b)]
  · by_cases hdata : i < a + data.length
    · obtain ⟨byte, hbyte⟩ : ∃ byte, data[i - a]? = some byte :=
        ⟨_, List.getElem?_eq_getElem (by omega)⟩
      simp [ha, hdata, hbyte, (by omega : i < b)]
    · by_cases hb : i < b <;> simp [ha, hdata, hb]

/-- Two writes that do not overlap may change places. -/
theorem overwrite_comm (content : Bytes) {a b : Nat} {data other : Bytes}
    (h : a + data.length ≤ b ∨ b + other.length ≤ a) :
    overwrite (overwrite content a data) b other = overwrite (overwrite content b other) a data := by
  rcases h with h | h
  · exact overwrite_comm_of_le content h
  · exact (overwrite_comm_of_le content h).symm

variable (f : PageFile)

theorem read_eq (content : Bytes) (n : Nat) :
    f.read content n f.pageSize =
      if content.length < n * f.pageSize + f.pageSize then .error (.file (.beyondEnd n f.path))
      else .ok ((content.drop (n * f.pageSize)).take f.pageSize) := by
  simp [read, checkLength, bind, Except.bind]

/-- The bytes where a page stands, as far as the file goes. -/
def slice (content : Bytes) (n : Nat) : Bytes := (content.drop (n * f.pageSize)).take f.pageSize

/-- A page that is written over another one, or right behind one, stands there. The bytes of all other
pages are as before. -/
theorem slice_overwrite {content data : Bytes} {n : Nat} (hroom : n * f.pageSize ≤ content.length)
    (hdata : data.length = f.pageSize) (m : Nat) :
    f.slice (overwrite content (n * f.pageSize) data) m = if m = n then data else f.slice content m := by
  unfold slice
  rcases Nat.lt_trichotomy m n with hlt | rfl | hgt
  · -- The page stands in front of the one that is written.
    have hle : m * f.pageSize + f.pageSize ≤ n * f.pageSize := by
      rw [← Nat.succ_mul]
      exact Nat.mul_le_mul_right _ hlt
    rw [if_neg (by omega)]
    apply List.ext_getElem?
    intro i
    simp only [List.getElem?_take, List.getElem?_drop, getElem?_overwrite]
    split
    · rw [if_pos (by omega), List.getElem?_eq_getElem (by omega)]
      simp
    · rfl
  · rw [if_pos rfl, ← hdata, take_drop_overwrite]
  · have hle : n * f.pageSize + f.pageSize ≤ m * f.pageSize := by
      rw [← Nat.succ_mul]
      exact Nat.mul_le_mul_right _ hgt
    rw [if_neg (by omega : ¬ m = n)]
    apply List.ext_getElem?
    intro i
    simp only [List.getElem?_take, List.getElem?_drop, getElem?_overwrite]
    split
    · rw [if_neg (by omega), if_neg (by omega)]
    · rfl

/-- So it is read back, and all other pages are read as before. -/
theorem read_overwrite {content data : Bytes} {n : Nat} (hroom : n * f.pageSize ≤ content.length)
    (hdata : data.length = f.pageSize) (m : Nat) :
    f.read (overwrite content (n * f.pageSize) data) m f.pageSize =
      if m = n then .ok data else f.read content m f.pageSize := by
  have hslice := f.slice_overwrite hroom hdata m
  unfold slice at hslice
  rw [read_eq, read_eq, length_overwrite, hdata, hslice]
  rcases Nat.lt_trichotomy m n with hlt | rfl | hgt
  · have hle : m * f.pageSize + f.pageSize ≤ n * f.pageSize := by
      rw [← Nat.succ_mul]
      exact Nat.mul_le_mul_right _ hlt
    rw [if_neg (by omega), if_neg (by omega), if_neg (by omega), if_neg (by omega)]
  · rw [if_neg (by omega), if_pos rfl, if_pos rfl]
  · have hle : n * f.pageSize + f.pageSize ≤ m * f.pageSize := by
      rw [← Nat.succ_mul]
      exact Nat.mul_le_mul_right _ hgt
    have hiff : max content.length (n * f.pageSize + f.pageSize) < m * f.pageSize + f.pageSize ↔
        content.length < m * f.pageSize + f.pageSize := by
      rcases Nat.eq_zero_or_pos f.pageSize with h0 | hpos
      · simp [h0]
      · omega
    simp only [hiff, if_neg (by omega : ¬ m = n)]

end PageFile

/-! ## Files of tables -/

namespace Disk

theorem content_setContent (d : Disk) {file : Nat} (h : file < d.files.length) (bs : Bytes)
    (other : Nat) :
    (d.setContent file bs).content other = if file = other then bs else d.content other := by
  unfold content setContent
  rw [List.getD_eq_getElem?_getD, List.getElem?_set, List.getD_eq_getElem?_getD]
  split
  · rename_i heq
    subst heq
    simp
  · rfl

theorem content_setContent_ne (d : Disk) {file other : Nat} (h : file ≠ other) (bs : Bytes) :
    (d.setContent file bs).content other = d.content other := by
  unfold content setContent
  rw [List.getD_eq_getElem?_getD, List.getElem?_set_ne h, List.getD_eq_getElem?_getD]

/-- A file that is not there holds nothing afterwards either. -/
theorem setContent_of_missing {d : Disk} {file : Nat} (h : d.files.length ≤ file) (bs : Bytes) :
    d.setContent file bs = d := by
  rw [setContent, List.set_eq_of_length_le h]

theorem setContent_setContent (d : Disk) (file : Nat) (bs bs' : Bytes) :
    (d.setContent file bs).setContent file bs' = d.setContent file bs' := by
  simp only [setContent, List.set_set]

theorem setContent_comm (d : Disk) {file other : Nat} (h : file ≠ other) (bs bs' : Bytes) :
    (d.setContent file bs).setContent other bs' = (d.setContent other bs').setContent file bs := by
  simp only [setContent, List.set_comm _ _ h]

end Disk

namespace TableFile

/-- The files after the bytes of one page were put into a table's file. -/
def placed (t : TableFile) (number : Nat) (bs : Bytes) (d : Disk) : Disk :=
  d.setContent t.file (PageFile.overwrite (t.content d) (number * t.pageSize) bs)

/-- The files after a page of free slots was added to a table's file. -/
def grown (t : TableFile) (d : Disk) : Disk := t.placed (t.numPages d) (Bytes.zeros t.pageSize) d

/-- Pages that do not overlap may be put into files in any order. -/
theorem placed_comm {t u : TableFile} {n m : Nat} {bs bs' : Bytes}
    (h : t.file = u.file → n * t.pageSize + bs.length ≤ m * u.pageSize ∨
      m * u.pageSize + bs'.length ≤ n * t.pageSize) (d : Disk) :
    u.placed m bs' (t.placed n bs d) = t.placed n bs (u.placed m bs' d) := by
  unfold placed content
  by_cases heq : t.file = u.file
  · rw [heq, Disk.setContent_setContent, Disk.setContent_setContent]
    rcases Nat.lt_or_ge u.file d.files.length with hthere | hmissing
    · rw [Disk.content_setContent d hthere, if_pos rfl, Disk.content_setContent d hthere, if_pos rfl,
        PageFile.overwrite_comm _ (h heq)]
    · rw [Disk.setContent_of_missing hmissing, Disk.setContent_of_missing hmissing]
  · rw [Disk.content_setContent_ne d heq, Disk.content_setContent_ne d (Ne.symm heq),
      Disk.setContent_comm d heq]

theorem appendEmpty_run (t : TableFile) (d : Disk) :
    t.appendEmpty d = (.ok ⟨t.table, t.numPages d⟩, t.grown d) := by
  have hcheck : t.pages.checkLength (Bytes.zeros t.pageSize).length = .ok () := by
    simp [PageFile.checkLength, pageSize]
  have happend : t.pages.append (t.content d) (Bytes.zeros t.pageSize) =
      .ok (t.numPages d, PageFile.overwrite (t.content d) (t.numPages d * t.pageSize)
        (Bytes.zeros t.pageSize)) := by
    simp only [PageFile.append, PageFile.write, hcheck]
    rfl
  unfold appendEmpty
  rw [Step.bind_of_ok (Step.state_run d), happend]
  rfl

theorem writePage_run {t : TableFile} {p : Page} {bs : Bytes} (htable : p.id.table = t.table)
    (hbs : p.data = .ok bs) (hlen : bs.length = t.pageSize) (d : Disk) :
    t.writePage p d = (.ok (), t.placed p.id.number bs d) := by
  have hcheck : t.pages.checkLength bs.length = .ok () := by
    simp only [PageFile.checkLength, hlen, pageSize, if_true]
  have hwrite : t.pages.write (t.content d) p.id.number bs =
      .ok (PageFile.overwrite (t.content d) (p.id.number * t.pageSize) bs) := by
    simp only [PageFile.write, hcheck]
    rfl
  unfold writePage
  rw [Step.bind_of_ok (Step.state_run d), checkTable, if_pos htable, hbs]
  change (Step.ofExcept (t.pages.write (t.content d) p.id.number bs) >>= _) d = _
  rw [hwrite]
  rfl

theorem readPage_eq (t : TableFile) (d : Disk) {id : PageId} (htable : id.table = t.table) :
    t.readPage d id =
      (t.pages.read (t.content d) id.number t.pageSize).bind
        (Page.ofBytes id t.schema t.pageSize) := by
  simp only [readPage, checkTable, if_pos htable]
  rfl

theorem number_lt_of_readPage {t : TableFile} {d : Disk} {id : PageId} {p : Page}
    (hpos : 0 < t.pageSize) (h : t.readPage d id = .ok p) : id.number < t.numPages d := by
  unfold readPage at h
  cases hcheck : t.checkTable id with
  | error e => simp [hcheck, bind, Except.bind] at h
  | ok u =>
    rw [pageSize, PageFile.read_eq] at h
    refine Nat.lt_of_not_le fun hge => ?_
    have hlt := Nat.lt_mul_of_div_lt (Nat.lt_succ_of_le hge) hpos
    rw [Nat.succ_mul] at hlt
    rw [if_pos hlt] at h
    simp [hcheck, bind, Except.bind] at h

end TableFile

end PageStore
