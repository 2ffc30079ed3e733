-- What a scan gives. Its walk over the pages of a table is a loop, of which something may
-- be known after each page: of the rows read so far, of the number of the next page and
-- of the pool. What is known stays known from one call to the next as long as nothing that
-- is done in between takes it away, and it holds of the rows that were given.
import PageStore.Proofs.Pool.Requests

namespace PageStore.Scan

/-- What is known of the pages before a number, the rows on them and the pool stays known when the next
page is read, or cannot be read. -/
structure Walk (tx : TxId) (table : TableId) (J : Nat → List Row → Pool → Prop) : Prop where
  got : ∀ n rows p page q, J n rows p →
    Pool.fetch tx ⟨table, n⟩ .shared p = (.ok page, q) → J (n + 1) (rows ++ page.rows) q
  notGot : ∀ n rows p e q, J n rows p →
    Pool.fetch tx ⟨table, n⟩ .shared p = (.error e, q) → J n rows q

/-- A scan of this table that gave these rows. A scan that is over has no rows left. -/
structure Gave (tx : TxId) (table : TableId) (J : Nat → List Row → Pool → Prop) (rows : List Row)
    (s : Scan × Pool) : Prop where
  tx : s.1.tx = tx
  table : s.1.table = table
  going : s.1.finished = false → J s.1.nextPage (rows ++ s.1.queue) s.2
  ended : s.1.finished = true → s.1.queue = [] ∧ ∃ n, J n rows s.2

/-- All pages that the table has were read, and these are the rows on them. -/
def Complete (table : TableId) (J : Nat → List Row → Pool → Prop) (rows : List Row) (p : Pool) : Prop :=
  ∃ n file, J n rows p ∧ p.catalog.tableFile? table = some file ∧ file.numPages p.disk ≤ n

/-- A scan that has to read on: it is not over, and all rows that were read were given. -/
structure Reading (tx : TxId) (table : TableId) (J : Nat → List Row → Pool → Prop) (rows : List Row)
    (s : Scan × Pool) : Prop where
  tx : s.1.tx = tx
  table : s.1.table = table
  unfinished : s.1.finished = false
  empty : s.1.queue = []
  known : J s.1.nextPage rows s.2

variable {tx : TxId} {table : TableId} {J : Nat → List Row → Pool → Prop} {rows : List Row}

/-- Of a scan in any state something is known, and the rows that it gave were read. -/
theorem Gave.known {s : Scan × Pool} (h : Gave tx table J rows s) : ∃ n more, J n (rows ++ more) s.2 := by
  cases hover : s.1.finished with
  | true =>
    obtain ⟨-, n, hknown⟩ := h.ended hover
    exact ⟨n, [], by rwa [List.append_nil]⟩
  | false => exact ⟨s.1.nextPage, s.1.queue, h.going hover⟩

/-- What is done to the pool between two calls leaves what the scan gave, if it leaves what is known. -/
theorem Gave.of_pool {s : Scan × Pool} (h : Gave tx table J rows s) {p : Pool}
    (hpool : ∀ n rows, J n rows s.2 → J n rows p) : Gave tx table J rows (s.1, p) := by
  refine ⟨h.tx, h.table, fun hgoing => hpool _ _ (h.going hgoing), fun hover => ?_⟩
  obtain ⟨hempty, n, hknown⟩ := h.ended hover
  exact ⟨hempty, n, hpool n rows hknown⟩

/-- A scan that could not read on; the number of the page that it could not read is counted. -/
structure Broken (tx : TxId) (table : TableId) (J : Nat → List Row → Pool → Prop) (rows : List Row)
    (s : Scan × Pool) : Prop where
  tx : s.1.tx = tx
  table : s.1.table = table
  empty : s.1.queue = []
  known : ∃ n, J n rows s.2

/-- The first error ends a scan, as its end does. -/
theorem Broken.finished {s : Scan × Pool} (h : Broken tx table J rows s) :
    Gave tx table J rows ({ s.1 with finished := true }, s.2) :=
  ⟨h.tx, h.table, fun hgoing => (by cases hgoing), fun _ => ⟨h.empty, h.known⟩⟩

theorem Reading.broken {s : Scan × Pool} (h : Reading tx table J rows s) : Broken tx table J rows s :=
  ⟨h.tx, h.table, h.empty, _, h.known⟩

/-- What reading on comes to. -/
def ReadOn (tx : TxId) (table : TableId) (J : Nat → List Row → Pool → Prop) (rows : List Row)
    (last : Nat) : Except Error Bool → Scan × Pool → Prop
  | .ok true, t => t.1.finished = false ∧ t.1.queue ≠ [] ∧ Gave tx table J rows t
  | .ok false, t => last ≤ t.1.nextPage ∧ Reading tx table J rows t
  | .error _, t => Broken tx table J rows t

theorem readUntilRow_gives (walk : Walk tx table J) (count : Nat) {s : Scan × Pool}
    (h : Reading tx table J rows s) :
    (readUntilRow (List.range' s.1.nextPage count)).Ends s
      (ReadOn tx table J rows (s.1.nextPage + count)) := by
  induction count generalizing s rows with
  | zero => exact ⟨Nat.le_refl _, h⟩
  | succ count ih =>
    rw [List.range'_succ]
    unfold readUntilRow
    refine Step.Ends.of_ok (Step.update_run _ s) (Step.Ends.of_ok (Step.read_run _ _) ?_)
    rcases hrun : Pool.fetch tx ⟨table, s.1.nextPage⟩ .shared s.2 with ⟨r, q⟩
    have hfetch : onPool (Pool.fetch s.1.tx ⟨s.1.table, s.1.nextPage⟩ .shared)
        ({ s.1 with nextPage := s.1.nextPage + 1 }, s.2) =
          (r, { s.1 with nextPage := s.1.nextPage + 1 }, q) :=
      Step.focus_run (by rw [h.tx, h.table]; exact hrun)
    cases r with
    | error e =>
      exact Step.Ends.of_error hfetch ⟨h.tx, h.table, h.empty, _, walk.notGot _ _ _ _ _ h.known hrun⟩
    | ok page =>
      have hknown := walk.got _ _ _ _ _ h.known hrun
      refine Step.Ends.of_ok hfetch (Step.Ends.of_ok (Step.update_run _ _) ?_)
      split
      · rename_i hempty
        have hrows : page.rows = [] := List.isEmpty_iff.mp hempty
        rw [hrows, List.append_nil] at hknown
        have := ih (s := ({ s.1 with nextPage := s.1.nextPage + 1, queue := page.rows }, q))
          ⟨h.tx, h.table, h.unfinished, hrows, hknown⟩
        rwa [Nat.add_right_comm] at this
      · rename_i hfull
        refine ⟨h.unfinished, fun hempty => hfull (List.isEmpty_iff.mpr hempty), ?_⟩
        exact ⟨h.tx, h.table, fun _ => hknown, fun hover => by simp [h.unfinished] at hover⟩

/-- What filling the queue comes to. At the end of the table all its pages were read. -/
def Refilled (tx : TxId) (table : TableId) (J : Nat → List Row → Pool → Prop) (rows : List Row) :
    Except Error Bool → Scan × Pool → Prop
  | .ok true, t => t.1.finished = false ∧ t.1.queue ≠ [] ∧ Gave tx table J rows t
  | .ok false, t => Reading tx table J rows t ∧ Complete table J rows t.2
  | .error _, t => Broken tx table J rows t

theorem refill_gives (walk : Walk tx table J) {s : Scan × Pool} (h : Reading tx table J rows s) :
    refill.Ends s (Refilled tx table J rows) := by
  unfold refill
  refine Step.Ends.of_ok (Step.read_run _ s) ?_
  have hfile : (onPool (Pool.tableFile s.1.table)).Ends s fun r t => t = s ∧
      ∀ file, r = .ok file → s.2.catalog.tableFile? table = some file := by
    refine Step.Ends.focus ((Pool.tableFile_ends s.1.table s.2).mono ?_)
    rintro r q ⟨rfl, hknown⟩
    exact ⟨rfl, h.table ▸ hknown⟩
  refine Step.Ends.bind hfile ?_ (fun e t ht => ht.1 ▸ h.broken)
  rintro file t ⟨rfl, hknown⟩
  refine Step.Ends.of_ok rfl ?_
  refine ((readUntilRow_gives walk _ h).and (readUntilRow_ends _ t)).mono ?_
  rintro (e | _ | _) t' ⟨hread, hgoes⟩
  · exact hread
  · obtain ⟨hlast, hreading⟩ := hread
    -- Looking at pages adds none to the table.
    have hstorage : t'.2.storage = t.2.storage := Pool.Looks.catalog hgoes.looks
    refine ⟨hreading, t'.1.nextPage, file, hreading.known, ?_, ?_⟩
    · rw [Pool.catalog, hstorage]
      exact hknown file rfl
    · rw [Pool.disk, hstorage, ← Pool.disk]
      have hlast : t.1.nextPage + (file.numPages t.2.disk - t.1.nextPage) ≤ t'.1.nextPage := hlast
      omega
  · exact hread

/-! ## Calls -/

/-- What a call comes to, for a scan that was over or was not. -/
def Given (tx : TxId) (table : TableId) (J : Nat → List Row → Pool → Prop) (rows : List Row)
    (ended : Bool) : Except Error (Option Row) → Scan × Pool → Prop
  | .ok (some row), t => t.1.finished = false ∧ Gave tx table J (rows ++ [row]) t
  | .ok none, t => t.1.finished = true ∧ Gave tx table J rows t ∧ (ended = false → Complete table J rows t.2)
  | .error _, t => Gave tx table J rows t

theorem pop_gives {s : Scan × Pool} (h : Gave tx table J rows s) (unfinished : s.1.finished = false)
    (full : s.1.queue ≠ []) : pop.Ends s (Given tx table J rows false) := by
  unfold pop
  refine Step.Ends.of_ok (Step.read_run _ s) ?_
  split
  · rename_i hempty
    exact absurd hempty full
  · rename_i row rest hqueue
    have hknown := h.going unfinished
    rw [hqueue] at hknown
    refine ⟨unfinished, h.tx, h.table, fun _ => ?_, fun hover => ?_⟩
    · rw [List.append_assoc]
      exact hknown
    · rw [show s.1.finished = true from hover] at unfinished
      cases unfinished

/-- Each row that is given is the next one of those that were read. -/
theorem next_gives (walk : Walk tx table J) {s : Scan × Pool} (h : Gave tx table J rows s) :
    next.Ends s (Given tx table J rows s.1.finished) := by
  unfold next
  refine Step.Ends.of_ok (Step.read_run _ s) ?_
  split
  · rename_i hempty
    have hempty : s.1.queue = [] := List.isEmpty_iff.mp hempty
    split
    · rename_i hover
      exact ⟨hover, h, fun hgoing => by simp [hover] at hgoing⟩
    · rename_i hgoing
      have hgoing : s.1.finished = false := Bool.eq_false_iff.mpr hgoing
      have hknown := h.going hgoing
      rw [hempty, List.append_nil] at hknown
      have hreading : Reading tx table J rows s := ⟨h.tx, h.table, hgoing, hempty, hknown⟩
      refine Step.Ends.bind_attempt (refill_gives walk hreading) ?_
      rintro (e | _ | _) t ht
      · exact ht.finished
      · obtain ⟨hread, hcomplete⟩ := ht
        exact ⟨rfl, hread.broken.finished, fun _ => hcomplete⟩
      · obtain ⟨hgoing', hfull, hgave⟩ := ht
        rw [hgoing]
        exact pop_gives hgave hgoing' hfull
  · rename_i hfull
    have hfull : s.1.queue ≠ [] := fun hempty => hfull (List.isEmpty_iff.mpr hempty)
    have hgoing : s.1.finished = false := by
      refine Bool.eq_false_iff.mpr fun hover => hfull (h.ended hover).1
    rw [hgoing]
    exact pop_gives h hgoing hfull

/-- All rows that are left, and with those that were given before all rows of the table, unless the scan
was over already. -/
theorem collect_gives (walk : Walk tx table J) (calls : Nat) {s : Scan × Pool}
    (h : Gave tx table J rows s) :
    (Step.collect next calls).Ends s fun r t => (∃ others, Gave tx table J (rows ++ others) t) ∧
      ∀ others, r = .ok others → Gave tx table J (rows ++ others) t ∧
        (s.1.finished = false → Complete table J (rows ++ others) t.2) := by
  induction calls generalizing s rows with
  | zero => exact ⟨⟨[], by rwa [List.append_nil]⟩, fun _ hr => by cases hr⟩
  | succ calls ih =>
    refine Step.Ends.bind (next_gives walk h) ?_
      (fun e t ht => ⟨⟨[], by rwa [List.append_nil]⟩, fun _ hr => by cases hr⟩)
    rintro (_ | row) t ht
    · obtain ⟨-, hgave, hcomplete⟩ := ht
      refine ⟨⟨[], by rwa [List.append_nil]⟩, ?_⟩
      rintro _ ⟨⟩
      rw [List.append_nil]
      exact ⟨hgave, hcomplete⟩
    · obtain ⟨hgoing, hgave⟩ := ht
      refine Step.Ends.bind (ih hgave) ?_ ?_
      · rintro others t' ⟨-, hall⟩
        obtain ⟨hgave', hcomplete⟩ := hall others rfl
        rw [List.append_assoc] at hgave' hcomplete
        refine ⟨⟨_, hgave'⟩, ?_⟩
        rintro _ ⟨⟩
        exact ⟨hgave', fun _ => hcomplete hgoing⟩
      · rintro e t' ⟨⟨others, hgave'⟩, -⟩
        rw [List.append_assoc] at hgave'
        exact ⟨⟨_, hgave'⟩, fun _ hr => by cases hr⟩

theorem gave_start {p : Pool} (h : J 0 [] p) : Gave tx table J [] (start tx table, p) :=
  ⟨rfl, rfl, fun _ => h, fun hover => by cases hover⟩

theorem drain_gives (walk : Walk tx table J) {s : Scan × Pool} (h : Gave tx table J rows s) :
    drain.Ends s fun r t => (∃ others, Gave tx table J (rows ++ others) t) ∧
      ∀ others, r = .ok others → Gave tx table J (rows ++ others) t ∧
        (s.1.finished = false → Complete table J (rows ++ others) t.2) := by
  unfold drain
  exact Step.Ends.of_ok (Step.state_run s) (collect_gives walk _ h)

/-! ## Scans without errors -/

/-- A scan that met no error is over only when all pages of the table were read. -/
structure Unbroken (tx : TxId) (table : TableId) (J : Nat → List Row → Pool → Prop) (rows : List Row)
    (s : Scan × Pool) : Prop where
  gave : Gave tx table J rows s
  whole : s.1.finished = true → Complete table J rows s.2

/-- A scan that is over gives nothing more, and reads nothing more. -/
theorem next_over {s : Scan × Pool} (ended : s.1.finished = true) (empty : s.1.queue = []) :
    next s = (.ok none, s) := by
  unfold next
  rw [Step.bind_of_ok (Step.read_run _ s)]
  simp [ended, empty]

theorem unbroken_start {p : Pool} (h : J 0 [] p) : Unbroken tx table J [] (start tx table, p) :=
  ⟨gave_start h, fun hover => nomatch hover⟩

/-- A call that did not fail. -/
theorem Unbroken.next (walk : Walk tx table J) {s t : Scan × Pool} (h : Unbroken tx table J rows s)
    {value : Option Row} (hrun : Scan.next s = (.ok value, t)) :
    Unbroken tx table J (rows ++ value.toList) t ∧ t.1.finished = value.isNone := by
  have hgives : Given tx table J rows s.1.finished (Scan.next s).1 (Scan.next s).2 :=
    next_gives walk h.gave
  rw [hrun] at hgives
  cases value with
  | some row =>
    obtain ⟨hgoing, hgave⟩ := hgives
    refine ⟨⟨hgave, fun hover => ?_⟩, hgoing⟩
    rw [hgoing] at hover
    cases hover
  | none =>
    obtain ⟨hover, hgave, hcomplete⟩ := hgives
    rw [Option.toList_none, List.append_nil]
    refine ⟨⟨hgave, fun _ => ?_⟩, hover⟩
    cases hbefore : s.1.finished with
    | false => exact hcomplete hbefore
    | true =>
      rw [next_over hbefore (h.gave.ended hbefore).1] at hrun
      cases hrun
      exact h.whole hbefore

end PageStore.Scan
