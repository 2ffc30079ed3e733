-- What calls do to a file of pages, whatever its length: which bytes are read, and which
-- bytes stand where after a write. From that, by induction over the calls, a file of whole
-- pages is an array of pages, to which a write behind the end adds pages of zeros.
import PageStore.Proofs.Storage.Files

namespace PageStore

namespace PageFile

/-! ## Calls -/

/-- What can be asked of a file of pages. A page is read into a buffer of `length` bytes. -/
inductive Call where
  | read (page length : Nat)
  | write (page : Nat) (data : Bytes)
  | append (data : Bytes)
  | numPages
  deriving Repr, DecidableEq

inductive Answer where
  | nothing
  | bytes (value : Bytes)
  | number (value : Nat)
  deriving Repr, DecidableEq

namespace Call

/-- Carries out a call on the content of the file. -/
def run (f : PageFile) : Call → Step Bytes Answer
  | read page length => do
    let bs ← Step.ofExcept (f.read (← Step.state) page length)
    return .bytes bs
  | write page data => do
    let content ← Step.ofExcept (f.write (← Step.state) page data)
    Step.setState content
    return .nothing
  | append data => do
    let (page, content) ← Step.ofExcept (f.append (← Step.state) data)
    Step.setState content
    return .number page
  | numPages => return .number (f.numPages (← Step.state))

/-- The content after these calls, the first one first. -/
def after (f : PageFile) (history : List Call) (content : Bytes) : Bytes :=
  history.foldl (fun content call => (call.run f content).2) content

/-- Carries out a call as a machine does. -/
def runWords (f : PageFile) : Call → Step Bytes Answer
  | read page length => do
    let bs ← Step.ofExcept (f.readWord (← Step.state) (.ofNat page) length)
    return .bytes bs
  | write page data => do
    let content ← Step.ofExcept (f.writeWord (← Step.state) (.ofNat page) data)
    Step.setState content
    return .nothing
  | append data => do
    let (page, content) ← Step.ofExcept (f.appendWord (← Step.state) data)
    Step.setState content
    return .number page.toNat
  | numPages => return .number (f.numPagesWord (← Step.state)).toNat

/-- The content after these calls of a machine. -/
def afterWords (f : PageFile) (history : List Call) (content : Bytes) : Bytes :=
  history.foldl (fun content call => (call.runWords f content).2) content

/-- Nothing is lost of the numbers of the pages that the call is about, nor of where they end. -/
def InWords (f : PageFile) : Call → Bytes → Prop
  | read page _, _ | write page _, _ => page < 0x100000000 ∧ f.Reaches page
  | append _, content => f.Counted content ∧ f.Reaches (f.numPages content)
  | numPages, content => f.Counted content

instance decidableInWords (f : PageFile) : (call : Call) → (content : Bytes) → Decidable (call.InWords f content)
  | read page _, _ => inferInstanceAs (Decidable (page < 0x100000000 ∧ f.Reaches page))
  | write page _, _ => inferInstanceAs (Decidable (page < 0x100000000 ∧ f.Reaches page))
  | append _, content => inferInstanceAs (Decidable (f.Counted content ∧ f.Reaches (f.numPages content)))
  | numPages, content => inferInstanceAs (Decidable (f.Counted content))

/-- So with all of these calls. -/
def AllInWords (f : PageFile) : List Call → Bytes → Prop
  | [], _ => True
  | call :: rest, content => call.InWords f content ∧ AllInWords f rest (call.run f content).2

instance decidableAllInWords (f : PageFile) :
    (history : List Call) → (content : Bytes) → Decidable (AllInWords f history content)
  | [], _ => inferInstanceAs (Decidable True)
  | call :: rest, content =>
    have := decidableAllInWords f rest (call.run f content).2
    inferInstanceAs (Decidable (call.InWords f content ∧ AllInWords f rest (call.run f content).2))

end Call

/-! ## Bytes -/

/-- Page `page` of `size` bytes was put into a file that held `old`. -/
structure Written (size : Nat) (old : Bytes) (page : Nat) (data new : Bytes) : Prop where
  length : new.length = max old.length ((page + 1) * size)
  there : (new.drop (page * size)).take size = data
  kept : ∀ i < old.length, i < page * size ∨ (page + 1) * size ≤ i → new[i]? = old[i]?
  zeros : ∀ i < page * size, old.length ≤ i → new[i]? = some 0

/-- What a call answers and leaves, byte by byte. -/
def Call.Does (f : PageFile) : Call → Bytes → Except Error Answer → Bytes → Prop
  | .read page length, old, answer, new =>
    new = old ∧
      if length ≠ f.pageSize then answer = .error (.file (.bufferLength f.pageSize length))
      else if (page + 1) * f.pageSize ≤ old.length then
        answer = .ok (.bytes ((old.drop (page * f.pageSize)).take f.pageSize))
      else answer = .error (.file (.beyondEnd page f.path))
  | .write page data, old, answer, new =>
    if data.length ≠ f.pageSize then
      answer = .error (.file (.bufferLength f.pageSize data.length)) ∧ new = old
    else answer = .ok .nothing ∧ Written f.pageSize old page data new
  | .append data, old, answer, new =>
    if data.length ≠ f.pageSize then
      answer = .error (.file (.bufferLength f.pageSize data.length)) ∧ new = old
    else answer = .ok (.number (old.length / f.pageSize)) ∧
      Written f.pageSize old (old.length / f.pageSize) data new
  | .numPages, old, answer, new => answer = .ok (.number (old.length / f.pageSize)) ∧ new = old

variable (f : PageFile)

theorem read_of_length {content : Bytes} {page length : Nat} (h : length ≠ f.pageSize) :
    f.read content page length = .error (.file (.bufferLength f.pageSize length)) := by
  simp [read, checkLength, h, bind, Except.bind]

theorem write_eq (content : Bytes) (page : Nat) (data : Bytes) :
    f.write content page data =
      if data.length = f.pageSize then .ok (overwrite content (page * f.pageSize) data)
      else .error (.file (.bufferLength f.pageSize data.length)) := by
  unfold write checkLength
  split <;> rfl

theorem append_eq (content data : Bytes) :
    f.append content data =
      if data.length = f.pageSize then
        .ok (f.numPages content, overwrite content (f.numPages content * f.pageSize) data)
      else .error (.file (.bufferLength f.pageSize data.length)) := by
  simp only [append, write_eq]
  split <;> rfl

/-- What a call within the bounds comes to is the same in words. -/
theorem Call.runWords_eq {f : PageFile} {call : Call} {content : Bytes} (h : call.InWords f content) :
    call.runWords f content = call.run f content := by
  cases call with
  | read page length =>
    have hpage : (UInt32.ofNat page).toNat = page := Nat.mod_eq_of_lt h.1
    have hread := readWord_eq content (hpage.symm ▸ h.2) length
    rw [hpage] at hread
    simp only [runWords, run, Step.bind_run, Step.state_run, hread]
  | write page data =>
    have hpage : (UInt32.ofNat page).toNat = page := Nat.mod_eq_of_lt h.1
    have hwrite := writeWord_eq content (hpage.symm ▸ h.2) data
    rw [hpage] at hwrite
    simp only [runWords, run, Step.bind_run, Step.state_run, hwrite]
  | append data =>
    have happend := appendWord_eq h.1 h.2 data
    simp only [runWords, run, Step.bind_run, Step.state_run, Step.ofExcept_run, ← happend]
    cases f.appendWord content data <;> rfl
  | numPages =>
    have hcount : (f.numPagesWord content).toNat = f.numPages content := toNat_numPagesWord h
    simp only [runWords, run, Step.bind_run, Step.state_run, hcount]

theorem Call.afterWords_eq {f : PageFile} {history : List Call} {content : Bytes}
    (h : Call.AllInWords f history content) : Call.afterWords f history content = Call.after f history content := by
  induction history generalizing content with
  | nil => rfl
  | cons call rest ih =>
    have hrest : afterWords f rest (call.run f content).2 = after f rest (call.run f content).2 := ih h.2
    rw [← Call.runWords_eq h.1] at hrest
    change afterWords f rest (call.runWords f content).2 = after f rest (call.run f content).2
    rw [hrest, Call.runWords_eq h.1]

theorem Call.run_read (content : Bytes) (page length : Nat) :
    (Call.read page length).run f content =
      if length = f.pageSize then
        if content.length < page * f.pageSize + f.pageSize then
          (.error (.file (.beyondEnd page f.path)), content)
        else (.ok (.bytes ((content.drop (page * f.pageSize)).take f.pageSize)), content)
      else (.error (.file (.bufferLength f.pageSize length)), content) := by
  by_cases hlength : length = f.pageSize
  · subst hlength
    by_cases hend : content.length < page * f.pageSize + f.pageSize <;>
      simp [Call.run, read_eq, hend, Step.bind_run]
  · simp [Call.run, read_of_length f hlength, hlength, Step.bind_run]

theorem Call.run_write (content : Bytes) (page : Nat) (data : Bytes) :
    (Call.write page data).run f content =
      if data.length = f.pageSize then (.ok .nothing, overwrite content (page * f.pageSize) data)
      else (.error (.file (.bufferLength f.pageSize data.length)), content) := by
  by_cases hlength : data.length = f.pageSize <;> simp [Call.run, write_eq, hlength, Step.bind_run]

theorem Call.run_append (content data : Bytes) :
    (Call.append data).run f content =
      if data.length = f.pageSize then
        (.ok (.number (f.numPages content)), overwrite content (f.numPages content * f.pageSize) data)
      else (.error (.file (.bufferLength f.pageSize data.length)), content) := by
  by_cases hlength : data.length = f.pageSize <;> simp [Call.run, append_eq, hlength, Step.bind_run]

theorem written_overwrite (content : Bytes) {data : Bytes} (page : Nat) (hdata : data.length = f.pageSize) :
    Written f.pageSize content page data (overwrite content (page * f.pageSize) data) where
  length := by rw [length_overwrite, hdata, Nat.succ_mul]
  there := by rw [← hdata, take_drop_overwrite]
  kept i hi haside := by
    rw [Nat.succ_mul] at haside
    rw [getElem?_overwrite, hdata]
    rcases haside with hfront | hback
    · rw [if_pos hfront, List.getElem?_eq_getElem hi]
      rfl
    · rw [if_neg (by omega), if_neg (by omega)]
  zeros i hgap hi := by
    rw [getElem?_overwrite, if_pos hgap, List.getElem?_eq_none hi]
    rfl

/-- One call, on a file of any length. -/
theorem Call.run_does (call : Call) (content : Bytes) :
    call.Does f content (call.run f content).1 (call.run f content).2 := by
  cases call with
  | read page length =>
    simp only [Does, run_read]
    by_cases hlength : length = f.pageSize
    · by_cases hend : content.length < page * f.pageSize + f.pageSize
      · simp [hlength, hend, Nat.succ_mul, Nat.not_le.mpr hend]
      · simp [hlength, hend, Nat.succ_mul, Nat.not_lt.mp hend]
    · simp [hlength]
  | write page data =>
    simp only [Does, run_write]
    by_cases hlength : data.length = f.pageSize
    · simpa [hlength] using written_overwrite f content page hlength
    · simp [hlength]
  | append data =>
    simp only [Does, run_append]
    by_cases hlength : data.length = f.pageSize
    · simpa [hlength, PageFile.numPages] using written_overwrite f content (f.numPages content) hlength
    · simp [hlength]
  | numPages => exact ⟨rfl, rfl⟩

/-! ## Whole pages -/

/-- The content is these pages one behind the other, each of them whole. -/
structure Holds (content : Bytes) (pages : List Bytes) : Prop where
  whole : ∀ page ∈ pages, page.length = f.pageSize
  content : content = pages.flatten

/-- A page is put in its place. Between the last page and a place behind it come pages of zeros. -/
def withPage (pages : List Bytes) (page : Nat) (data : Bytes) : List Bytes :=
  if page < pages.length then pages.set page data
  else pages ++ List.replicate (page - pages.length) (Bytes.zeros f.pageSize) ++ [data]

namespace Call

/-- What a call answers and does on an array of pages. -/
def onPages : Call → Step (List Bytes) Answer
  | read page length => do
    Step.ofExcept (f.checkLength length)
    match (← Step.state)[page]? with
    | some bs => return .bytes bs
    | none => Step.fail (.file (.beyondEnd page f.path))
  | write page data => do
    Step.ofExcept (f.checkLength data.length)
    Step.update fun pages => f.withPage pages page data
    return .nothing
  | append data => do
    Step.ofExcept (f.checkLength data.length)
    let pages ← Step.state
    Step.setState (pages ++ [data])
    return .number pages.length
  | numPages => return .number (← Step.state).length

/-- The array after these calls. -/
def pagesAfter (history : List Call) (pages : List Bytes) : List Bytes :=
  history.foldl (fun pages call => (call.onPages f pages).2) pages

end Call

theorem Call.onPages_read (pages : List Bytes) (page length : Nat) :
    (Call.read page length).onPages f pages =
      if length = f.pageSize then
        match pages[page]? with
        | some bs => (.ok (.bytes bs), pages)
        | none => (.error (.file (.beyondEnd page f.path)), pages)
      else (.error (.file (.bufferLength f.pageSize length)), pages) := by
  by_cases hlength : length = f.pageSize
  · simp only [Call.onPages, checkLength, hlength, if_true, Step.bind_run, Step.ofExcept_run, Step.state_run]
    cases pages[page]? <;> rfl
  · simp [Call.onPages, checkLength, hlength, Step.bind_run]

theorem Call.onPages_write (pages : List Bytes) (page : Nat) (data : Bytes) :
    (Call.write page data).onPages f pages =
      if data.length = f.pageSize then (.ok .nothing, f.withPage pages page data)
      else (.error (.file (.bufferLength f.pageSize data.length)), pages) := by
  by_cases hlength : data.length = f.pageSize <;>
    simp [Call.onPages, checkLength, hlength, Step.bind_run]

theorem Call.onPages_append (pages : List Bytes) (data : Bytes) :
    (Call.append data).onPages f pages =
      if data.length = f.pageSize then (.ok (.number pages.length), pages ++ [data])
      else (.error (.file (.bufferLength f.pageSize data.length)), pages) := by
  by_cases hlength : data.length = f.pageSize <;>
    simp [Call.onPages, checkLength, hlength, Step.bind_run]

theorem length_flatten_of_whole {size : Nat} {pages : List Bytes} (h : ∀ page ∈ pages, page.length = size) :
    pages.flatten.length = pages.length * size := by
  induction pages with
  | nil => simp
  | cons page rest ih =>
    obtain ⟨hpage, hrest⟩ := List.forall_mem_cons.mp h
    rw [List.flatten_cons, List.length_append, hpage, ih hrest, List.length_cons, Nat.succ_mul, Nat.add_comm]

section Arrays

variable {f} {content : Bytes} {pages : List Bytes}

theorem Holds.length (h : f.Holds content pages) : content.length = pages.length * f.pageSize := by
  rw [h.content, length_flatten_of_whole h.whole]

theorem Holds.numPages (h : f.Holds content pages) (hpos : 0 < f.pageSize) :
    f.numPages content = pages.length := by
  rw [PageFile.numPages, h.length, Nat.mul_div_cancel _ hpos]

/-- What stands in front of a page and behind it. -/
theorem Holds.split (h : f.Holds content pages) {page : Nat} (hpage : page < pages.length) :
    content = (pages.take page).flatten ++ (pages[page] ++ (pages.drop (page + 1)).flatten) ∧
      (pages.take page).flatten.length = page * f.pageSize := by
  constructor
  · have hpages : pages.take page ++ pages[page] :: pages.drop (page + 1) = pages := by
      rw [← List.drop_eq_getElem_cons hpage, List.take_append_drop]
    rw [h.content, ← List.flatten_cons, ← List.flatten_append, hpages]
  · rw [length_flatten_of_whole fun p hp => h.whole p (List.mem_of_mem_take hp),
      List.length_take_of_le (Nat.le_of_lt hpage)]

theorem Holds.slice (h : f.Holds content pages) {page : Nat} (hpage : page < pages.length) :
    (content.drop (page * f.pageSize)).take f.pageSize = pages[page] := by
  obtain ⟨hsplit, hfront⟩ := h.split hpage
  rw [hsplit, List.drop_left' hfront, List.take_left' (h.whole _ (List.getElem_mem hpage))]

/-- A page that is put over another one. -/
theorem Holds.replaced (h : f.Holds content pages) {page : Nat} (hpage : page < pages.length) {data : Bytes}
    (hdata : data.length = f.pageSize) : overwrite content (page * f.pageSize) data = (pages.set page data).flatten := by
  obtain ⟨hsplit, hfront⟩ := h.split hpage
  have hold : pages[page].length = data.length := (h.whole _ (List.getElem_mem hpage)).trans hdata.symm
  have hroom : page * f.pageSize ≤ content.length := h.length ▸ Nat.mul_le_mul_right _ (Nat.le_of_lt hpage)
  have hcut : Bytes.fit (page * f.pageSize) content = (pages.take page).flatten := by
    rw [Bytes.fit, Nat.sub_eq_zero_of_le hroom, Bytes.zeros, List.replicate_zero, List.append_nil, hsplit,
      List.take_left' hfront]
  have hbehind : content.drop (page * f.pageSize + data.length) = (pages.drop (page + 1)).flatten := by
    rw [hsplit, ← List.append_assoc]
    exact List.drop_left' (by rw [List.length_append, hfront, hold])
  rw [overwrite, hcut, hbehind, List.set_eq_take_append_cons_drop, if_pos hpage, List.flatten_append,
    List.flatten_cons, List.append_assoc]

/-- A page that is put behind the last one. -/
theorem Holds.added (h : f.Holds content pages) {page : Nat} (hpage : pages.length ≤ page) {data : Bytes} :
    overwrite content (page * f.pageSize) data =
      (pages ++ List.replicate (page - pages.length) (Bytes.zeros f.pageSize) ++ [data]).flatten := by
  have hle : content.length ≤ page * f.pageSize := h.length ▸ Nat.mul_le_mul_right _ hpage
  have hzeros : Bytes.zeros (page * f.pageSize - content.length) =
      (List.replicate (page - pages.length) (Bytes.zeros f.pageSize)).flatten := by
    rw [h.length, ← Nat.sub_mul, Bytes.zeros, Bytes.zeros, List.flatten_replicate_replicate]
  rw [overwrite, Bytes.fit, List.take_of_length_le hle, hzeros, List.drop_of_length_le (by omega), List.append_nil,
    List.flatten_append, List.flatten_append, ← h.content, List.flatten_singleton]

theorem Holds.put (h : f.Holds content pages) (page : Nat) {data : Bytes} (hdata : data.length = f.pageSize) :
    f.Holds (overwrite content (page * f.pageSize) data) (f.withPage pages page data) := by
  unfold withPage
  split
  · rename_i hpage
    refine ⟨fun p hp => ?_, h.replaced hpage hdata⟩
    rcases List.mem_or_eq_of_mem_set hp with hold | rfl
    · exact h.whole p hold
    · exact hdata
  · rename_i hpage
    refine ⟨?_, h.added (Nat.not_lt.mp hpage)⟩
    refine List.forall_mem_append.mpr ⟨List.forall_mem_append.mpr ⟨h.whole, fun p hp => ?_⟩,
      List.forall_mem_singleton.mpr hdata⟩
    rw [List.eq_of_mem_replicate hp, Bytes.length_zeros]

theorem withPage_length (f : PageFile) (pages : List Bytes) (data : Bytes) :
    f.withPage pages pages.length data = pages ++ [data] := by
  simp [withPage]

/-- Every file whose length is a whole number of pages holds an array of pages. -/
theorem exists_holds (whole : f.pageSize ∣ content.length) : ∃ pages, f.Holds content pages := by
  obtain ⟨count, hcount⟩ := whole
  -- On the number of pages. The first one is cut off.
  induction count generalizing content with
  | zero => exact ⟨[], fun _ h => (nomatch h), List.eq_nil_of_length_eq_zero hcount⟩
  | succ count ih =>
    rw [Nat.mul_succ] at hcount
    have hrest : (content.drop f.pageSize).length = f.pageSize * count := by
      rw [List.length_drop]
      omega
    obtain ⟨pages, hpages⟩ := ih hrest
    refine ⟨content.take f.pageSize :: pages, List.forall_mem_cons.mpr ⟨?_, hpages.whole⟩, ?_⟩
    · exact List.length_take_of_le (by omega)
    · rw [List.flatten_cons, ← hpages.content, List.take_append_drop]

/-- All bytes of a page are there exactly when the page is. -/
theorem Holds.beyond_iff (h : f.Holds content pages) (hpos : 0 < f.pageSize) {page : Nat} :
    content.length < page * f.pageSize + f.pageSize ↔ pages.length ≤ page := by
  rw [h.length, ← Nat.succ_mul, Nat.mul_lt_mul_right hpos, Nat.lt_succ_iff]

/-- One call answers what it answers on the array, and changes the array as it says. -/
theorem Holds.run (h : f.Holds content pages) (hpos : 0 < f.pageSize) (call : Call) :
    (call.run f content).1 = (call.onPages f pages).1 ∧
      f.Holds (call.run f content).2 (call.onPages f pages).2 := by
  cases call with
  | read page length =>
    rw [Call.run_read, Call.onPages_read]
    split
    · by_cases hpage : page < pages.length
      · have hend := (not_congr (h.beyond_iff hpos)).mpr (Nat.not_le.mpr hpage)
        rw [if_neg hend, List.getElem?_eq_getElem hpage, h.slice hpage]
        exact ⟨rfl, h⟩
      · have hend := (h.beyond_iff hpos).mpr (Nat.not_lt.mp hpage)
        rw [if_pos hend, List.getElem?_eq_none (Nat.not_lt.mp hpage)]
        exact ⟨rfl, h⟩
    · exact ⟨rfl, h⟩
  | write page data =>
    rw [Call.run_write, Call.onPages_write]
    split
    · exact ⟨rfl, h.put page ‹_›⟩
    · exact ⟨rfl, h⟩
  | append data =>
    rw [Call.run_append, Call.onPages_append, h.numPages hpos]
    split
    · have hput := h.put pages.length ‹_›
      rw [withPage_length] at hput
      exact ⟨rfl, hput⟩
    · exact ⟨rfl, h⟩
  | numPages => exact ⟨by simp [Call.run, Call.onPages, Step.bind_run, h.numPages hpos], h⟩

/-- All calls. -/
theorem Holds.after (h : f.Holds content pages) (hpos : 0 < f.pageSize) (history : List Call) :
    f.Holds (Call.after f history content) (Call.pagesAfter f history pages) := by
  unfold Call.after Call.pagesAfter
  induction history generalizing content pages with
  | nil => exact h
  | cons call rest ih => exact ih (h.run hpos call).2

end Arrays

/-- Take a file of any length and any calls on it, with pages of at least one byte, whose numbers and whose ends
a machine can count. A machine then does what is said here. Each call answers and leaves what `Call.Does` says
of it, byte by byte: a buffer that is not one page long is refused and nothing changes, a page is read if all
its bytes are there, a page that is written stands in its place with zeros in the gap before it, and an added
page stands behind the last whole one. A file of whole pages is the array of these pages one behind the other,
and stays one: all calls answer and do what they would on the array, to which a write behind the end adds
pages of zeros. -/
theorem a_file_is_an_array_of_pages {f : PageFile} (hpos : 0 < f.pageSize) (content : Bytes)
    (history : List Call) (inWords : Call.AllInWords f history content) :
    Call.afterWords f history content = Call.after f history content ∧
    (∀ call : Call, call.InWords f (Call.after f history content) →
      call.runWords f (Call.after f history content) = call.run f (Call.after f history content) ∧
      call.Does f (Call.after f history content) (call.run f (Call.after f history content)).1
        (Call.after f (history ++ [call]) content)) ∧
    (f.pageSize ∣ content.length → ∃ pages, f.Holds content pages) ∧
    ∀ pages, f.Holds content pages →
      f.Holds (Call.after f history content) (Call.pagesAfter f history pages) ∧
      f.pageSize ∣ (Call.after f history content).length ∧
      ∀ call : Call, call.InWords f (Call.after f history content) →
        (call.runWords f (Call.after f history content)).1 =
          (call.onPages f (Call.pagesAfter f history pages)).1 := by
  refine ⟨Call.afterWords_eq inWords, fun call hcall => ⟨Call.runWords_eq hcall, ?_⟩, exists_holds, fun pages h => ?_⟩
  · have hnext : Call.after f (history ++ [call]) content = (call.run f (Call.after f history content)).2 := by
      simp [Call.after]
    rw [hnext]
    exact Call.run_does f call _
  · have hafter := h.after hpos history
    refine ⟨hafter, ⟨_, by rw [hafter.length, Nat.mul_comm]⟩, fun call hcall => ?_⟩
    rw [Call.runWords_eq hcall]
    exact (hafter.run hpos call).1

/-- A page is added where the last whole one ends, over what is left there of another. -/
example : Call.after ⟨"t", 2⟩ [.append [3, 4]] [7, 8, 9] = [7, 8, 3, 4] := by decide

/-- A page is written two places behind the end, and another one is added. -/
theorem a_gap_is_pages_of_zeros :
    0 < (⟨"t", 2⟩ : PageFile).pageSize ∧ (⟨"t", 2⟩ : PageFile).Holds [7, 8] [[7, 8]] ∧
    Call.AllInWords ⟨"t", 2⟩ [.write 2 [1, 2], .append [3, 4]] [7, 8] ∧
    Call.afterWords ⟨"t", 2⟩ [.write 2 [1, 2], .append [3, 4]] [7, 8] = [7, 8, 0, 0, 1, 2, 3, 4] ∧
    Call.InWords ⟨"t", 2⟩ (.read 1 2) [7, 8, 0, 0, 1, 2, 3, 4] ∧
    (Call.runWords ⟨"t", 2⟩ (.read 1 2) [7, 8, 0, 0, 1, 2, 3, 4]).1 = .ok (.bytes [0, 0]) := by
  have hold : (⟨"t", 2⟩ : PageFile).Holds [7, 8] [[7, 8]] := ⟨by decide, rfl⟩
  have hpos : 0 < (⟨"t", 2⟩ : PageFile).pageSize := by decide
  have inWords : Call.AllInWords ⟨"t", 2⟩ [.write 2 [1, 2], .append [3, 4]] [7, 8] := by decide
  have hread : Call.InWords ⟨"t", 2⟩ (.read 1 2) [7, 8, 0, 0, 1, 2, 3, 4] := by decide
  obtain ⟨hwords, -, -, harray⟩ := a_file_is_an_array_of_pages hpos [7, 8] [.write 2 [1, 2], .append [3, 4]] inWords
  obtain ⟨hafter, -, hcalls⟩ := harray _ hold
  have hcontent : Call.after ⟨"t", 2⟩ [.write 2 [1, 2], .append [3, 4]] [7, 8] = [7, 8, 0, 0, 1, 2, 3, 4] :=
    hafter.content
  rw [hcontent] at hwords hcalls
  exact ⟨hpos, hold, inWords, hwords, hread, hcalls (.read 1 2) hread⟩

/-- With pages of 2 ^ 33 bytes a machine takes page 2 ^ 31 for the first one. -/
example : (⟨"t", 0x200000000⟩ : PageFile).beginWord 0x80000000 = 0 ∧
    ¬ (⟨"t", 0x200000000⟩ : PageFile).Reaches 0x80000000 := by decide

end PageFile

end PageStore
