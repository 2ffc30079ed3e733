-- What an insert puts into its table. However often it is called after a start, and whatever
-- fails meanwhile, it puts in the rows that it pulls, each one once: a call that fails has
-- put in all that it pulled, save perhaps the last row, and the next call goes on behind
-- that one. The call that gives the number of the rows comes to the end of the input, and
-- no later call does anything.
import PageStore.Proofs.Operator.Gives
import PageStore.Proofs.Page.RoundTrip
import PageStore.Proofs.Pool.Filling

namespace PageStore

variable {σ : Type}

namespace Source

/-- The operator has these rows to give, and leaves the pool alone. A start or a call may fail, and a call
that fails takes no row. `Left` says of a cursor which rows are still to come. -/
structure Replays (source : Source σ) (all : List Row) (Left : List Row → σ → Prop) : Prop where
  init : ∀ s, source.init.Ends s fun r t => t.2 = s.2 ∧ (r = .ok () → Left all t.1)
  next : ∀ {rows s}, Left rows s.1 → source.next.Ends s fun r t => t.2 = s.2 ∧
    match r with
    | .ok row => row = rows.head? ∧ Left rows.tail t.1
    | .error _ => Left rows t.1
  rowsOver : ∀ row ∈ all, row.Over source.schema
  bound : ∀ {rows s}, Left rows s.1 → rows.length ≤ source.bound s

/-- This is an error of some call. -/
def MayFail (source : Source σ) (e : Error) : Prop := ∃ s, (source.next s).1 = .error e

theorem next_mayFail (source : Source σ) (s : σ × Pool) :
    source.next.Ends s fun r _ => ∀ e, r = .error e → source.MayFail e := fun _ h => ⟨s, h⟩

/-- Calls one after the other, whatever comes of each of them. -/
def calls (source : Source σ) : Nat → σ × Pool → List (Except Error (Option Row)) × (σ × Pool)
  | 0, s => ([], s)
  | n + 1, s =>
    let (answer, m) := source.next s
    let (answers, t) := source.calls n m
    (answer :: answers, t)

end Source

open Source

/-- A replay may be told to fail. -/
theorem Replay.replays {r : Replay} (rowsOver : ∀ row ∈ r.rows, row.Over r.schema) :
    r.source.Replays r.rows r.Left where
  init s := by
    change r.init.Ends s _
    unfold init
    refine Step.Ends.of_ok (Step.update_run _ s) (Step.Ends.of_ok (Step.read_run _ _) ?_)
    refine Step.Ends.check (fun _ => ?_) (fun _ => ⟨rfl, fun h => nomatch h⟩)
    exact ⟨rfl, fun _ => rfl⟩
  next {rows s} hleft := by
    change r.next.Ends s _
    unfold next
    refine Step.Ends.of_ok (Step.read_run _ s) ?_
    split
    · exact ⟨rfl, hleft⟩
    · refine Step.Ends.of_ok (Step.update_run _ s) ⟨rfl, ?_, ?_⟩
      · rw [hleft, List.head?_drop]
      · rw [hleft, Left, List.tail_drop]
        rfl
  rowsOver := rowsOver
  bound hleft := by
    rw [hleft, List.length_drop]
    exact Nat.sub_le ..

namespace InsertTarget

/-- The values of a row as a row of the table. -/
def own (t : InsertTarget) (row : Row) : Row := { schema := t.schema, fields := row.fields }

/-- Puts the values of some rows into the table, one row after the other. -/
def puts (t : InsertTarget) (rows : List Row) (p : Pool) : List (Except Error RecordId) × Pool :=
  Pool.insertEach t.tx t.table (rows.map t.own) p

/-- The types of a row are those of the table. -/
def Takes (t : InsertTarget) (row : Row) : Prop := row.fields.map Field.type = t.schema.types

variable {t : InsertTarget} {child : Source σ} {all rows rest : List Row} {Left : List Row → σ → Prop}
  {s : InsertCursor σ × Pool} {row : Row}

theorem onChild_run {r : Except Error (Option Row)} {c : σ} {p : Pool}
    (run : child.next (s.1.child, s.2) = (r, c, p)) :
    onChild child.next s = (r, ({ s.1 with child := c }, p)) := by
  simp only [onChild, onPart, Step.focus, run]

theorem insertRow_run (takes : t.Takes row) {p q : Pool} {r : Except Error RecordId}
    (run : Pool.insert t.tx t.table (t.own row) p = (r, q)) :
    t.insertRow row p = (r.map fun _ => (), q) := by
  have hown : Row.ofFields t.schema row.fields = .ok (t.own row) := Row.ofFields_of_types takes
  unfold insertRow
  rw [hown]
  refine (Step.bind_of_ok (Step.ofExcept_run _ _) _).trans ?_
  rw [Step.bind_run, run]
  cases r <;> rfl

/-! ## One call -/

/-- What one call of an insert does: the rows that it pulls, and what comes of each. -/
structure Turn where
  answer : Except Error (Option Row)
  pulled : List Row
  outcomes : List (Except Error RecordId)

/-- All rows were taken and the input failed with this error, or else the last one was refused with it. -/
def StopsWith (child : Source σ) (e : Error) (outcomes : List (Except Error RecordId)) : Prop :=
  ∃ places, (child.MayFail e ∧ outcomes = List.map .ok places) ∨ outcomes = List.map .ok places ++ [.error e]

/-- A call that fails: the input failed, or the row that was pulled last. -/
def Turn.Fails (child : Source σ) (turn : Turn) : Prop :=
  ∃ e, turn.answer = .error e ∧ StopsWith child e turn.outcomes

/-- A call that gives the number of the rows that it has put in. -/
def Turn.Counts (turn : Turn) : Prop :=
  ∃ (n : Int32) (places : List RecordId), turn.answer = .ok (some { schema := output, fields := [.int n] }) ∧
    n.toInt = places.length ∧ turn.outcomes = List.map .ok places

/-- A call that does nothing. -/
def Turn.idle : Turn := ⟨.ok none, [], []⟩

/-- Some of the rows that were left were pulled and put in, with these outcomes. -/
structure Pulls (t : InsertTarget) (Left : List Row → σ → Prop) (rows : List Row) (s : InsertCursor σ × Pool)
    (pulled : List Row) (outcomes : List (Except Error RecordId)) (rest : List Row)
    (m : InsertCursor σ × Pool) : Prop where
  split : rows = pulled ++ rest
  left : Left rest m.1.child
  puts : t.puts pulled s.2 = (outcomes, m.2)
  started : m.1.started = s.1.started

/-- One row is pulled, if the input does not fail. -/
theorem pull_ends (law : child.Replays all Left) (left : Left rows s.1.child) :
    (onChild child.next).Ends s fun r m => m.2 = s.2 ∧ m.1.started = s.1.started ∧
      m.1.finished = s.1.finished ∧
      match r with
      | .ok row => row = rows.head? ∧ Left rows.tail m.1.child
      | .error e => Left rows m.1.child ∧ child.MayFail e := by
  have hnext := (law.next (s := (s.1.child, s.2)) left).and (child.next_mayFail _)
  unfold onChild onPart
  apply Step.Ends.focus
  refine hnext.mono fun r m ⟨⟨hpool, hr⟩, hfails⟩ => ⟨hpool, rfl, rfl, ?_⟩
  cases r with
  | ok row => exact hr
  | error e => exact ⟨hr, hfails e rfl⟩

/-- No row was pulled. -/
theorem Pulls.nothing {m : InsertCursor σ × Pool} (left : Left rows m.1.child) (pool : m.2 = s.2)
    (started : m.1.started = s.1.started) : t.Pulls Left rows s [] [] rows m :=
  ⟨rfl, left, congrArg (Prod.mk []) pool.symm, started⟩

/-- A row is put in, and then others. -/
theorem Pulls.cons {c m : InsertCursor σ × Pool} {r : Except Error RecordId} {pulled rest : List Row}
    {outcomes : List (Except Error RecordId)} (started : c.1.started = s.1.started)
    (run : Pool.insert t.tx t.table (t.own row) s.2 = (r, c.2))
    (h : t.Pulls Left rows c pulled outcomes rest m) :
    t.Pulls Left (row :: rows) s (row :: pulled) (r :: outcomes) rest m := by
  refine ⟨congrArg (row :: ·) h.split, h.left, ?_, h.started.trans started⟩
  have hputs := h.puts
  unfold InsertTarget.puts at hputs ⊢
  simp only [List.map_cons, Pool.insertEach, run, hputs]

/-- The loop pulls rows up to the end, or up to the first failure, and puts each of them in. -/
theorem insertAll_ends (law : child.Replays all Left) (takes : ∀ row ∈ rows, t.Takes row)
    (left : Left rows s.1.child) {calls : Nat} (enough : rows.length < calls) (count : Nat) :
    (t.insertAll child calls count).Ends s fun r m => m.1.finished = s.1.finished ∧
      ∃ pulled outcomes rest, t.Pulls Left rows s pulled outcomes rest m ∧
      match r with
      | .ok n => ∃ places, n = count + places.length ∧ rest = [] ∧ outcomes = List.map .ok places
      | .error e => StopsWith child e outcomes := by
  induction calls generalizing rows s count with
  | zero => exact absurd enough (Nat.not_lt_zero _)
  | succ calls ih =>
    unfold insertAll
    refine Step.Ends.bind (pull_ends law left) ?_ ?_
    · rintro _ m ⟨hpool, hstarted, hfinished, rfl, hleft⟩
      cases rows with
      | nil => exact ⟨hfinished, [], [], [], .nothing hleft hpool hstarted, [], rfl, rfl, rfl⟩
      | cons row rows =>
        obtain ⟨htakes, hrest⟩ := List.forall_mem_cons.mp takes
        rcases hinsert : Pool.insert t.tx t.table (t.own row) s.2 with ⟨r, q⟩
        have hrow : (onPool (t.insertRow row) : Step (InsertCursor σ × Pool) Unit) m =
            (r.map fun _ => (), (m.1, q)) := Step.focus_run (insertRow_run htakes (hpool ▸ hinsert))
        cases r with
        | error e =>
          have hnothing : t.Pulls Left rows (m.1, q) [] [] rows (m.1, q) := .nothing hleft rfl rfl
          apply Step.Ends.of_error hrow
          exact ⟨hfinished, [row], [.error e], rows, .cons (c := (m.1, q)) hstarted hinsert hnothing, [], .inr rfl⟩
        | ok place =>
          apply Step.Ends.of_ok hrow
          apply (ih hrest (s := (m.1, q)) hleft (Nat.lt_of_succ_lt_succ enough) (count + 1)).mono
          rintro r m' ⟨hfinished', pulled, outcomes, rest, hpulls, hr⟩
          refine ⟨hfinished'.trans hfinished, row :: pulled, .ok place :: outcomes, rest,
            .cons (c := (m.1, q)) hstarted hinsert hpulls, ?_⟩
          cases r with
          | ok n =>
            obtain ⟨places, rfl, rfl, rfl⟩ := hr
            refine ⟨place :: places, ?_, rfl, rfl⟩
            rw [List.length_cons]
            omega
          | error e =>
            obtain ⟨places, hplaces⟩ := hr
            exact ⟨place :: places, hplaces.imp (And.imp_right (congrArg (_ :: ·))) (congrArg (_ :: ·))⟩
    · rintro e m ⟨hpool, hstarted, hfinished, hleft, hfails⟩
      exact ⟨hfinished, [], [], _, .nothing hleft hpool hstarted, [], .inl ⟨hfails, rfl⟩⟩

theorem length_puts (t : InsertTarget) (rows : List Row) (p : Pool) : (t.puts rows p).1.length = rows.length := by
  rw [puts, Pool.length_insertEach, List.length_map]

/-- A call before the end has come: it fails, or it comes to the end. -/
theorem next_ends (law : child.Replays all Left) (takes : ∀ row ∈ rows, t.Takes row)
    (few : rows.length < 0x80000000) (started : s.1.started = true) (going : s.1.finished = false)
    (left : Left rows s.1.child) :
    (t.next child).Ends s fun answer m => ∃ (turn : Turn) (rest : List Row), turn.answer = answer ∧
      t.Pulls Left rows s turn.pulled turn.outcomes rest m ∧
      (turn.Fails child ∧ m.1.finished = false ∨ turn.Counts ∧ m.1.finished = true ∧ rest = []) := by
  unfold next
  apply Step.Ends.of_ok (Step.state_run s)
  apply Step.Ends.check (fun _ => ?_) (fun h => absurd started (by simp [h]))
  rw [going]
  have enough : rows.length < child.bound (s.1.child, s.2) + 1 := Nat.lt_succ_of_le (law.bound left)
  refine Step.Ends.bind (insertAll_ends law takes left enough 0) ?_ ?_
  · rintro n m ⟨-, pulled, outcomes, rest, hpulls, places, rfl, rfl, rfl⟩
    have hcount : places.length ≤ rows.length := by
      have hlength := t.length_puts pulled s.2
      rw [hpulls.puts, List.length_map] at hlength
      rw [hpulls.split, List.append_nil, hlength]
    have hrow : Row.ofFields output [.int (Int32.ofNat (0 + places.length))] =
        .ok { schema := output, fields := [.int (Int32.ofNat (0 + places.length))] } :=
      Row.ofFields_of_types rfl
    apply Step.Ends.of_ok (Step.update_run _ m)
    rw [hrow]
    refine ⟨⟨_, pulled, List.map .ok places⟩, [], rfl,
      ⟨hpulls.split, hpulls.left, hpulls.puts, hpulls.started⟩, .inr ⟨?_, rfl, rfl⟩⟩
    refine ⟨_, places, rfl, ?_, rfl⟩
    rw [Nat.zero_add, Int32.toInt_ofNat_of_lt (by omega)]
  · rintro e m ⟨hfinished, pulled, outcomes, rest, hpulls, hstops⟩
    exact ⟨⟨.error e, pulled, outcomes⟩, rest, rfl, hpulls, .inl ⟨⟨e, rfl, hstops⟩, hfinished.trans going⟩⟩

/-- A call after the end. -/
theorem next_finished (started : s.1.started = true) (finished : s.1.finished = true) :
    t.next child s = (.ok none, s) := by
  unfold next
  refine (Step.bind_of_ok (Step.state_run s) _).trans ?_
  simp only [started, finished]
  rfl

theorem calls_finished (started : s.1.started = true) (finished : s.1.finished = true) (n : Nat) :
    (t.source child).calls n s = (List.replicate n (.ok none), s) := by
  have hnext : (t.source child).next s = (.ok none, s) := next_finished started finished
  induction n with
  | zero => rfl
  | succ n ih => simp only [calls, hnext, ih, List.replicate_succ]

/-! ## All calls -/

/-- What the calls after a start come to, from the rows that are left and the pool, to the rows that are
left and the pool in the end. Calls that fail go on behind one another, until one counts; it has come to
the end of the rows, and all later ones do nothing. -/
inductive Course (t : InsertTarget) (child : Source σ) :
    List Row → Pool → List Turn → List Row → Pool → Prop where
  | stays {rows p} : Course t child rows p [] rows p
  | fails {turn turns rows rest p m q} (fails : turn.Fails child)
    (puts : t.puts turn.pulled p = (turn.outcomes, m)) (later : Course t child rows m turns rest q) :
    Course t child (turn.pulled ++ rows) p (turn :: turns) rest q
  | counts {turn turns p q} (counts : turn.Counts) (puts : t.puts turn.pulled p = (turn.outcomes, q))
    (later : ∀ turn ∈ turns, turn = Turn.idle) : Course t child turn.pulled p (turn :: turns) [] q

theorem calls_course (law : child.Replays all Left) (takes : ∀ row ∈ rows, t.Takes row)
    (few : rows.length < 0x80000000) (started : s.1.started = true) (going : s.1.finished = false)
    (left : Left rows s.1.child) (n : Nat) :
    ∃ turns rest, ((t.source child).calls n s).1 = turns.map Turn.answer ∧
      Left rest ((t.source child).calls n s).2.1.child ∧
      t.Course child rows s.2 turns rest ((t.source child).calls n s).2.2 := by
  induction n generalizing rows s with
  | zero => exact ⟨[], rows, rfl, left, .stays⟩
  | succ n ih =>
    obtain ⟨turn, rest, hanswer, hpulls, hturn⟩ := next_ends law takes few started going left
    have hstarted := hpulls.started.trans started
    have hsplit := hpulls.split
    have hcalls : (t.source child).calls (n + 1) s = ((t.next child s).1 ::
        ((t.source child).calls n (t.next child s).2).1, ((t.source child).calls n (t.next child s).2).2) := rfl
    rw [hcalls]
    rcases hturn with ⟨hfails, hgoing⟩ | ⟨hcounts, hfinished, rfl⟩
    · subst hsplit
      have hshort : rest.length < 0x80000000 := by
        rw [List.length_append] at few
        omega
      obtain ⟨turns, rest', hanswers, hleft, hcourse⟩ :=
        ih (fun row hrow => takes row (List.mem_append_right _ hrow)) hshort hstarted hgoing hpulls.left
      refine ⟨turn :: turns, rest', ?_, hleft, .fails hfails hpulls.puts hcourse⟩
      rw [hanswers, ← hanswer, List.map_cons]
    · rw [List.append_nil] at hsplit
      subst hsplit
      rw [calls_finished hstarted hfinished]
      refine ⟨turn :: List.replicate n Turn.idle, [], ?_, hpulls.left, .counts hcounts hpulls.puts ?_⟩
      · rw [← hanswer, List.map_cons, List.map_replicate]
        rfl
      · exact fun turn hturn => List.eq_of_mem_replicate hturn

section Course

variable {turns : List Turn} {p q : Pool}

theorem flatMap_idle {α : Type} {f : Turn → List α} (hf : f Turn.idle = [])
    (idle : ∀ turn ∈ turns, turn = Turn.idle) : turns.flatMap f = [] :=
  List.flatMap_eq_nil_iff.mpr fun turn hturn => idle turn hturn ▸ hf

/-- All calls together pull the first rows, and put in each of them once. -/
theorem Course.all_puts (h : t.Course child rows p turns rest q) :
    rows = turns.flatMap Turn.pulled ++ rest ∧
      t.puts (turns.flatMap Turn.pulled) p = (turns.flatMap Turn.outcomes, q) := by
  induction h with
  | stays => exact ⟨rfl, rfl⟩
  | @fails turn turns rows rest p m q _ hputs _ ih =>
    obtain ⟨hrows, hall⟩ := ih
    refine ⟨?_, ?_⟩
    · rw [List.flatMap_cons, List.append_assoc, ← hrows]
    · unfold puts at hputs hall ⊢
      rw [List.flatMap_cons, List.flatMap_cons, List.map_append, Pool.insertEach_append, hputs, hall]
  | @counts turn turns p q _ hputs later =>
    rw [List.flatMap_cons, List.flatMap_cons, flatMap_idle rfl later, flatMap_idle rfl later]
    simpa using hputs

end Course

/-! ## The law -/

/-- A start that succeeds begins with all rows. -/
theorem init_ends (law : child.Replays all Left) :
    ((t.source child).init).Ends s fun r m => r = .ok () →
      m.2 = s.2 ∧ m.1.started = true ∧ m.1.finished = false ∧ Left all m.1.child := by
  have hchild : (onChild child.init).Ends s fun r m => m.2 = s.2 ∧ (r = .ok () → Left all m.1.child) := by
    unfold onChild onPart
    exact Step.Ends.focus (law.init (s.1.child, s.2))
  change (init child).Ends s _
  unfold init
  apply Step.Ends.bind hchild
  · rintro ⟨⟩ m ⟨hpool, hleft⟩ _
    exact ⟨hpool, rfl, rfl, hleft rfl⟩
  · intro e m _ h
    cases h

theorem takes_of_check (agrees : t.check child.schema = .ok ()) (rowOver : row.Over child.schema) : t.Takes row := by
  unfold check at agrees
  split at agrees
  · rename_i hagrees
    exact rowOver.types.trans ((Schema.agrees_iff ..).mp hagrees)
  · cases agrees

theorem file_of_schemaOf {c : Catalog} {table : TableId} {schema : Schema}
    (h : c.schemaOf table = .ok schema) : ∃ file, c.tableFile? table = some file ∧ file.schema = schema := by
  unfold Catalog.schemaOf at h
  cases hfile : c.tableFile table with
  | error e =>
    rw [hfile] at h
    cases h
  | ok file =>
    rw [hfile] at h
    exact ⟨file, Storage.tableFile?_of_tableFile hfile, Except.ok.inj h⟩

/-- After a start, however many calls there are, the rows that have come into the table are those of the
rows that were pulled that were taken, each once, in order, and as rows of the table; no other row of any
table has changed. If 32 bits can count the pages in the end, they can number those of all these rows. A
call that gives a number has put in so many rows and has come to the end of the input, and no later call does
anything. -/
theorem an_insert_puts_in_what_it_pulls {storage : Storage} (own : storage.OwnFiles) {config : Config}
    {pool : Pool} (new : Pool.new storage config = .ok pool) {p : Pool} (reached : Pool.Undisturbed pool p)
    (law : child.Replays all Left) (few : all.length < 0x80000000)
    (schema : p.catalog.schemaOf t.table = .ok t.schema) (agrees : t.check child.schema = .ok ())
    {c : InsertCursor σ} (start : (t.source child).init (c, p) = (.ok (), s)) (n : Nat)
    (counted : ((t.source child).calls n s).2.2.storage.Counted) :
    ∃ file turns rest, p.catalog.tableFile? t.table = some file ∧
      ((t.source child).calls n s).1 = turns.map Turn.answer ∧
      Left rest ((t.source child).calls n s).2.1.child ∧
      t.Course child all p turns rest ((t.source child).calls n s).2.2 ∧
      all = turns.flatMap Turn.pulled ++ rest ∧
      let stored := Pool.taken ((turns.flatMap Turn.pulled).map t.own) (turns.flatMap Turn.outcomes)
      Pool.Fills t.table file stored p ((t.source child).calls n s).2.2 ∧
        ∀ e ∈ stored, ((t.source child).calls n s).2.2.row? e.1 = some (e.2.setPlace (some e.1)) ∧
          e.1.page.number < (file.numPagesWord ((t.source child).calls n s).2.2.disk).toNat := by
  have hinit := init_ends (t := t) law (s := (c, p))
  rw [Step.Ends, start] at hinit
  obtain ⟨hpool, hstarted, hgoing, hleft⟩ := hinit rfl
  have takes : ∀ row ∈ all, t.Takes row := fun row hrow => takes_of_check agrees (law.rowsOver row hrow)
  obtain ⟨turns, rest, hanswers, hrest, hcourse⟩ := calls_course law takes few hstarted hgoing hleft n
  obtain ⟨hall, hputs⟩ := hcourse.all_puts
  rw [hpool] at hcourse hputs
  obtain ⟨file, known, hschema⟩ := file_of_schemaOf schema
  have typed : ∀ row ∈ (turns.flatMap Turn.pulled).map t.own, row.Typed := by
    intro row hrow
    obtain ⟨row, hpulled, rfl⟩ := List.mem_map.mp hrow
    exact takes row (hall ▸ List.mem_append_left _ hpulled)
  have hfirst := Pool.sure_of_new own new
  obtain ⟨hend, hcatalog, hfills⟩ := Pool.insertEach_fills hfirst t.tx typed reached known
  unfold puts at hputs
  rw [hputs] at hend hcatalog hfills
  have hfaithful := (hend.sure hfirst).faithful
  have hnumbered := hfills.numbered hfaithful counted (hcatalog ▸ known)
  refine ⟨file, turns, rest, known, hanswers, hrest, hcourse, hall, hfills, fun e he => ⟨?_, hnumbered e he⟩⟩
  obtain ⟨row, -, hrow⟩ := List.mem_map.mp (Pool.mem_of_taken he)
  have hknown : ((t.source child).calls n s).2.2.catalog.tableFile? e.1.page.table = some file := by
    rw [hcatalog, (hfills.empty e he).table, known]
  rw [Pool.row?_of_rowAt? hfaithful hknown (hfills.there e he), hschema, ← hrow]
  rfl

/-- One table of names, with two rows to a page, whose file is empty. -/
def namesTable : Storage :=
  let file : TableFile := { table := 1, schema := Page.twoStrings.schema, pages := ⟨"names.dat", 266⟩, file := 0 }
  { catalog :=
      { onDisk := false, pageSize := 266
        tables := Assoc.empty.insert 1 { name := "names", file, storedAs := none }
        names := Assoc.empty.insert "names" 1 }
    disk := { directory := "", names := Assoc.empty.insert "names.dat" 0, files := [[]] } }

def roomForNames : Pool := { config := { capacity := 2, pageSize := 266 }, storage := namesTable }

/-- Four names, of which the second one is too long. The input fails once, before it gives the last one. -/
def fourNames : Replay where
  schema := Page.twoStrings.schema
  rows := [Page.oneString 1, Page.oneString 129, Page.oneString 2, Page.oneString 3]
  failAt := some 3

def intoNames : InsertTarget := { tx := 7, table := 1, schema := Page.twoStrings.schema }

def fiveCalls : List (Except Error (Option Row)) × InsertCursor ReplayCursor × Pool :=
  (intoNames.source fourNames.source).calls 5
    ((intoNames.source fourNames.source).init ({ child := {} }, roomForNames)).2

/-- The first call comes as far as the second name, the second one as far as the failure of the input, and
the third one puts in what is left. -/
theorem a_name_that_is_too_long_is_left_out :
    namesTable.OwnFiles ∧ Pool.new namesTable { capacity := 2, pageSize := 266 } = .ok roomForNames ∧
    fourNames.source.Replays fourNames.rows fourNames.Left ∧ fiveCalls.2.2.storage.Counted ∧
    fiveCalls.1.map Except.toOption =
      [none, none, some (some { schema := output, fields := [.int 1] }), some none, some none] ∧
    ∃ file, namesTable.catalog.tableFile? 1 = some file ∧
      Pool.Fills 1 file
        [(⟨⟨1, 0⟩, 0⟩, Page.oneString 1), (⟨⟨1, 0⟩, 1⟩, Page.oneString 2), (⟨⟨1, 1⟩, 0⟩, Page.oneString 3)]
        roomForNames fiveCalls.2.2 := by
  have own : namesTable.OwnFiles := Storage.ownFiles_of_alone rfl rfl (by decide)
  have new : Pool.new namesTable { capacity := 2, pageSize := 266 } = .ok roomForNames := rfl
  have rowsOver : ∀ row ∈ fourNames.rows, row.Over fourNames.schema := by
    intro row hrow
    simp only [fourNames, List.mem_cons, List.not_mem_nil, or_false] at hrow
    rcases hrow with rfl | rfl | rfl | rfl <;> exact ⟨rfl, rfl⟩
  have law := fourNames.replays rowsOver
  have start : (intoNames.source fourNames.source).init ({ child := {} }, roomForNames) =
      (.ok (), ((intoNames.source fourNames.source).init ({ child := {} }, roomForNames)).2) := rfl
  have counted : fiveCalls.2.2.storage.Counted := by decide +kernel
  have hcounted := counted
  unfold fiveCalls at hcounted
  obtain ⟨file, turns, rest, known, -, left, course, all, fills, -⟩ :=
    an_insert_puts_in_what_it_pulls own new .start law (by decide) rfl
      (Step.eq_ok_of_toOption (by decide +kernel)) start 5 hcounted
  have position : fiveCalls.2.1.child.position = 5 := by decide +kernel
  rw [Replay.Left, ← fiveCalls, position] at left
  obtain rfl : rest = [] := left
  rw [List.append_nil] at all
  have outcomes : turns.flatMap Turn.outcomes = (intoNames.puts fourNames.rows roomForNames).1 := by
    rw [all, course.all_puts.2]
  have stored : Pool.taken (fourNames.rows.map intoNames.own) (intoNames.puts fourNames.rows roomForNames).1 =
      [(⟨⟨1, 0⟩, 0⟩, Page.oneString 1), (⟨⟨1, 0⟩, 1⟩, Page.oneString 2), (⟨⟨1, 1⟩, 0⟩, Page.oneString 3)] := by
    decide +kernel
  rw [← all, outcomes, stored, ← fiveCalls] at fills
  exact ⟨own, new, law, counted, by decide +kernel, file, known, fills⟩

end InsertTarget

end PageStore
