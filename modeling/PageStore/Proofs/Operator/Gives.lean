-- Operators that give a list. Whatever an operator did before, a start makes it give
-- all rows of its list again, one by one, and nothing for ever after; the pool is left
-- alone. Joins and aggregates do so if their inputs do: one case for each kind of node.
import PageStore.Proofs.Operator.Groups
import PageStore.Proofs.Operator.Keeps

namespace PageStore

variable {σ τ α β : Type}

namespace Source

/-- The call gives this answer and leaves the pool alone, and this is known of the cursor then. -/
def Answers (m : Step (σ × Pool) α) (s : σ × Pool) (a : α) (C : σ → Prop) : Prop :=
  ∃ c, m s = (.ok a, (c, s.2)) ∧ C c

section Answers

variable {m : Step (σ × Pool) α} {s : σ × Pool} {a : α} {C D : σ → Prop}

theorem Answers.bind {f : α → Step (σ × Pool) β} {b : β} (h : Answers m s a C)
    (hf : ∀ c, C c → Answers (f a) (c, s.2) b D) : Answers (m >>= f) s b D := by
  obtain ⟨c, hrun, hc⟩ := h
  obtain ⟨d, hnext, hd⟩ := hf c hc
  exact ⟨d, (Step.bind_of_ok hrun f).trans hnext, hd⟩

/-- The first operation is known to succeed. -/
theorem Answers.of_ok {f : α → Step (σ × Pool) β} {b : β} {c : σ} (h : m s = (.ok a, (c, s.2)))
    (hf : Answers (f a) (c, s.2) b D) : Answers (m >>= f) s b D := by
  obtain ⟨d, hnext, hd⟩ := hf
  exact ⟨d, (Step.bind_of_ok h f).trans hnext, hd⟩

theorem Answers.onPart {get : τ → σ} {set : τ → σ → τ} {t : τ × Pool} (h : Answers m (get t.1, t.2) a C) :
    Answers (Source.onPart get set m) t a fun c => ∃ part, C part ∧ c = set t.1 part := by
  obtain ⟨c, hrun, hc⟩ := h
  refine ⟨set t.1 c, ?_, c, hc, rfl⟩
  simp only [Source.onPart, Step.focus, hrun]

theorem Answers.ofExcept {r : Except Error α} (h : r = .ok a) (hc : C s.1) :
    Answers (Step.ofExcept r) s a C := ⟨s.1, by rw [h]; rfl, hc⟩

end Answers

/-- The operator gives these rows when it was started. `Left` says of a cursor which of them are
still to come; where none are left, none come. -/
structure Gives (source : Source σ) (all : List Row) (Left : List Row → σ → Prop) : Prop where
  init : ∀ s, Answers source.init s () (Left all)
  next : ∀ {rows s}, Left rows s.1 → Answers source.next s rows.head? (Left rows.tail)
  rows_over : ∀ {rows c}, Left rows c → ∀ row ∈ rows, row.Over source.schema
  all_over : ∀ row ∈ all, row.Over source.schema
  bound : ∀ {rows s}, Left rows s.1 → rows.length ≤ source.bound s
  bound_all : ∀ s, all.length ≤ source.bound s

variable {source : Source σ} {all rows : List Row} {Left : List Row → σ → Prop} {s : σ × Pool}

/-- Calls that are more than the rows that are left. -/
theorem Gives.collect_next (h : source.Gives all Left) (hleft : Left rows s.1) {calls : Nat}
    (hcalls : rows.length < calls) : Answers (Step.collect source.next calls) s rows (Left []) := by
  induction rows generalizing s calls with
  | nil =>
    obtain _ | calls := calls
    · exact absurd hcalls (Nat.not_lt_zero _)
    exact (h.next hleft).bind fun c hc => ⟨c, rfl, hc⟩
  | cons row rows ih =>
    obtain _ | calls := calls
    · exact absurd hcalls (Nat.not_lt_zero _)
    refine (h.next hleft).bind fun c hc => ?_
    exact (ih (s := (c, s.2)) hc (Nat.lt_of_succ_lt_succ hcalls)).bind fun d hd => ⟨d, rfl, hd⟩

theorem Gives.drain (h : source.Gives all Left) (hleft : Left rows s.1) :
    Answers source.drain s rows (Left []) :=
  h.collect_next hleft (Nat.lt_succ_of_le (h.bound hleft))

theorem Gives.collect (h : source.Gives all Left) (s : σ × Pool) : Answers source.collect s all (Left []) :=
  (h.init s).bind fun _ hc => h.drain hc

end Source

open Source

/-! ## Leaves -/

/-- The rows from the place on are left. -/
def Replay.Left (r : Replay) (rows : List Row) (c : ReplayCursor) : Prop := rows = r.rows.drop c.position

/-- A replay that was not told to fail. -/
theorem Replay.gives {r : Replay} (failInit : r.failInit = none) (failAt : r.failAt = none)
    (rowsOver : ∀ row ∈ r.rows, row.Over r.schema) : r.source.Gives r.rows r.Left where
  init s := by
    have hcheck : decide (r.failInit ≠ some (s.1.starts + 1)) = true := by simp [failInit]
    refine ⟨{ s.1 with starts := s.1.starts + 1, position := 0 }, ?_, rfl⟩
    change (Step.check (decide (r.failInit ≠ some (s.1.starts + 1))) _ >>= _) _ = _
    rw [hcheck]
    rfl
  next {rows s} hleft := by
    refine ⟨{ s.1 with position := s.1.position + 1 }, ?_, ?_⟩
    · have hnot : (s.1.armed && decide (r.failAt = some s.1.position)) = false := by simp [failAt]
      change (if (s.1.armed && decide (r.failAt = some s.1.position)) = true then _ else _ :
        Step (ReplayCursor × Pool) (Option Row)) s = _
      rw [hnot, hleft, List.head?_drop]
      rfl
    · rw [Left, hleft, List.tail_drop]
  rows_over hleft row hrow := rowsOver row (List.mem_of_mem_drop (hleft ▸ hrow))
  all_over := rowsOver
  bound hleft := by
    rw [hleft, List.length_drop]
    exact Nat.sub_le ..
  bound_all _ := Nat.le_refl _

/-! ## Joins -/

namespace Join

/-- Two rows side by side. -/
def joined (schema : Schema) (left right : Row) : Row := { schema, fields := left.fields ++ right.fields }

/-- The pairs of a left row, one for each right row that matches it. -/
def pairsOf (on : Predicate) (schema : Schema) (left : Row) (rights : List Row) : List Row :=
  (rights.filter (on.accepts left)).map (joined schema left)

/-- The pairs of all left rows, one left row after the other. -/
def pairs (on : Predicate) (schema : Schema) (lefts rights : List Row) : List Row :=
  lefts.flatMap fun left => pairsOf on schema left rights

variable (on : Predicate) (schema : Schema)

theorem length_pairsOf_le (left : Row) (rights : List Row) :
    (pairsOf on schema left rights).length ≤ rights.length := by
  rw [pairsOf, List.length_map]
  exact List.length_filter_le ..

theorem length_pairs_le (lefts rights : List Row) :
    (pairs on schema lefts rights).length ≤ lefts.length * rights.length := by
  induction lefts with
  | nil => exact Nat.zero_le _
  | cons left lefts ih =>
    have hpairs : pairs on schema (left :: lefts) rights =
        pairsOf on schema left rights ++ pairs on schema lefts rights := List.flatMap_cons
    rw [hpairs, List.length_append, List.length_cons, Nat.succ_mul, Nat.add_comm]
    exact Nat.add_le_add ih (length_pairsOf_le on schema left rights)

variable {left : Source σ} {right : Source τ} {lefts rights : List Row}

theorem over_joined {l r : Row} (hl : l.Over left.schema) (hr : r.Over right.schema) :
    (joined (left.schema.append right.schema) l r).Over (left.schema.append right.schema) := by
  refine ⟨rfl, ?_⟩
  change (l.fields ++ r.fields).map Field.type = _
  rw [List.map_append, hl.types, hr.types]
  exact (Schema.types_append ..).symm

/-- The values of two rows always fit the columns of both. -/
theorem append_eq {l r : Row} (hl : l.Over left.schema) (hr : r.Over right.schema) :
    Row.append (left.schema.append right.schema) l r = .ok (joined (left.schema.append right.schema) l r) :=
  Row.ofFields_of_types (over_joined hl hr).types

theorem over_pairsOf {l : Row} (hl : l.Over left.schema) (hr : ∀ r ∈ rights, r.Over right.schema) :
    ∀ row ∈ pairsOf on (left.schema.append right.schema) l rights,
      row.Over (left.schema.append right.schema) := by
  intro row hrow
  obtain ⟨r, hmem, rfl⟩ := List.mem_map.mp hrow
  exact over_joined hl (hr r (List.mem_filter.mp hmem).1)

theorem over_pairs (hl : ∀ l ∈ lefts, l.Over left.schema) (hr : ∀ r ∈ rights, r.Over right.schema) :
    ∀ row ∈ pairs on (left.schema.append right.schema) lefts rights,
      row.Over (left.schema.append right.schema) := by
  intro row hrow
  obtain ⟨l, hmem, hrow⟩ := List.mem_flatMap.mp hrow
  exact over_pairsOf on (hl l hmem) hr row hrow

/-- What is left of a join: the pairs of the left rows that are left, and before them those of the
current row with the right rows that are left. -/
inductive Left (on : Predicate) (left : Source σ) (right : Source τ) (rights : List Row)
    (L : List Row → σ → Prop) (R : List Row → τ → Prop) : List Row → JoinCursor σ τ → Prop
  | between {lefts c} (started : c.started = true) (current : c.current = none) (hleft : L lefts c.left) :
    Left on left right rights L R (pairs on (left.schema.append right.schema) lefts rights) c
  | within {l lefts others c} (started : c.started = true) (current : c.current = some l)
    (hl : l.Over left.schema) (hleft : L lefts c.left) (hright : R others c.right) :
    Left on left right rights L R (pairsOf on (left.schema.append right.schema) l others ++
      pairs on (left.schema.append right.schema) lefts rights) c

section Gives

variable {L : List Row → σ → Prop} {R : List Row → τ → Prop} {allLefts others : List Row} {l : Row}
  {s : JoinCursor σ τ × Pool}

/-- A left row that was taken out, with the right rows that are left for it. -/
structure InHand (left : Source σ) (L : List Row → σ → Prop) (R : List Row → τ → Prop) (l : Row)
    (lefts others : List Row) (c : JoinCursor σ τ) : Prop where
  started : c.started = true
  current : c.current = none
  current_over : l.Over left.schema
  left : L lefts c.left
  right : R others c.right

variable (hleft : left.Gives allLefts L) (hright : right.Gives rights R)

include hright in
/-- The next match is the first one that is left, and the right input comes to stand behind it. -/
theorem nextMatch_gives (hl : l.Over left.schema) {calls : Nat} (hothers : R others s.1.right)
    (hcalls : others.length < calls) :
    Answers (nextMatch on (left.schema.append right.schema) right l calls) s
      (pairsOf on (left.schema.append right.schema) l others).head?
      fun c => ∃ part rest, R rest part ∧ c = { s.1 with right := part } ∧
        (pairsOf on (left.schema.append right.schema) l others).tail =
          pairsOf on (left.schema.append right.schema) l rest := by
  induction others generalizing s calls with
  | nil =>
    obtain _ | calls := calls
    · exact absurd hcalls (Nat.not_lt_zero _)
    unfold nextMatch
    refine (hright.next hothers).onPart.bind ?_
    rintro c ⟨part, hpart, rfl⟩
    exact ⟨_, rfl, part, [], hpart, rfl, rfl⟩
  | cons other others ih =>
    have hother : other.Over right.schema := hright.rows_over hothers other List.mem_cons_self
    obtain _ | calls := calls
    · exact absurd hcalls (Nat.not_lt_zero _)
    unfold nextMatch
    refine (hright.next hothers).onPart.bind ?_
    rintro c ⟨part, hpart, rfl⟩
    dsimp only [List.head?_cons]
    by_cases haccepts : on.accepts l other = true
    · have hpairs : pairsOf on (left.schema.append right.schema) l (other :: others) =
          joined (left.schema.append right.schema) l other ::
            pairsOf on (left.schema.append right.schema) l others := by
        rw [pairsOf, List.filter_cons_of_pos haccepts]
        rfl
      rw [if_pos haccepts, hpairs, append_eq hl hother]
      exact ⟨_, rfl, part, others, hpart, rfl, rfl⟩
    · have hpairs : pairsOf on (left.schema.append right.schema) l (other :: others) =
          pairsOf on (left.schema.append right.schema) l others := by
        rw [pairsOf, List.filter_cons_of_neg haccepts]
        rfl
      rw [if_neg haccepts, hpairs]
      exact ih hpart (Nat.lt_of_succ_lt_succ hcalls)

/-- The current row is taken out, and the right input stays where it is. -/
theorem takeLeft_current (started : s.1.started = true) (current : s.1.current = some l)
    (hl : l.Over left.schema) (hlefts : L lefts s.1.left) (hothers : R others s.1.right) :
    Answers (takeLeft left right) s (some l) (InHand left L R l lefts others) := by
  have hset : setCurrent none s = (.ok (), ({ s.1 with current := none }, s.2)) := rfl
  unfold takeLeft
  refine Answers.of_ok (Step.read_run _ s) (Answers.of_ok hset ?_)
  rw [current]
  exact ⟨_, rfl, started, rfl, hl, hlefts, hothers⟩

include hleft hright in
/-- Where no row is current the next left one is taken, and the right input starts anew for it. -/
theorem takeLeft_next (started : s.1.started = true) (current : s.1.current = none)
    (hlefts : L (l :: lefts) s.1.left) :
    Answers (takeLeft left right) s (some l) (InHand left L R l lefts rights) := by
  have hl : l.Over left.schema := hleft.rows_over hlefts l List.mem_cons_self
  have hset : setCurrent none s = (.ok (), ({ s.1 with current := none }, s.2)) := rfl
  unfold takeLeft
  refine Answers.of_ok (Step.read_run _ s) (Answers.of_ok hset ?_)
  rw [current]
  refine (hleft.next hlefts).onPart.bind ?_
  rintro _ ⟨part, hpart, rfl⟩
  refine (hright.init _).onPart.bind ?_
  rintro _ ⟨part', hpart', rfl⟩
  exact ⟨_, rfl, started, rfl, hl, hpart, hpart'⟩

include hleft in
theorem takeLeft_end (started : s.1.started = true) (current : s.1.current = none) (hlefts : L [] s.1.left) :
    Answers (takeLeft left right) s none fun c => c.started = true ∧ c.current = none ∧ L [] c.left := by
  have hset : setCurrent none s = (.ok (), ({ s.1 with current := none }, s.2)) := rfl
  unfold takeLeft
  refine Answers.of_ok (Step.read_run _ s) (Answers.of_ok hset ?_)
  rw [current]
  refine (hleft.next hlefts).onPart.bind ?_
  rintro _ ⟨part, hpart, rfl⟩
  exact ⟨_, rfl, started, rfl, hpart⟩

include hright in
/-- Once a left row was taken out, the next pair is one of its own, or else one of the rows behind it. -/
theorem nextPair_of_takeLeft {rows : Nat}
    (htake : Answers (takeLeft left right) s (some l) (InHand left L R l lefts others))
    (hrest : ∀ c, c.started = true → c.current = none → L lefts c.left →
      Answers (nextPair on left right rows) (c, s.2)
        (pairs on (left.schema.append right.schema) lefts rights).head?
        (Left on left right rights L R (pairs on (left.schema.append right.schema) lefts rights).tail)) :
    Answers (nextPair on left right (rows + 1)) s
      (pairsOf on (left.schema.append right.schema) l others ++
        pairs on (left.schema.append right.schema) lefts rights).head?
      (Left on left right rights L R (pairsOf on (left.schema.append right.schema) l others ++
        pairs on (left.schema.append right.schema) lefts rights).tail) := by
  unfold nextPair
  refine htake.bind fun c hc => ?_
  refine Answers.of_ok (Step.state_run (c, s.2)) ?_
  have hmatch := nextMatch_gives on hright hc.current_over (s := (c, s.2)) hc.right
    (Nat.lt_succ_of_le (hright.bound (s := (c.right, s.2)) hc.right))
  refine hmatch.bind ?_
  rintro _ ⟨part, rest, hpart, rfl, htail⟩
  cases hpairs : pairsOf on (left.schema.append right.schema) l others with
  | nil => exact hrest _ hc.started hc.current hc.left
  | cons row rows =>
    rw [hpairs] at htail
    obtain rfl : rows = _ := htail
    exact ⟨_, rfl, .within hc.started rfl hc.current_over hc.left hpart⟩

include hleft hright

theorem nextPair_between {rows : Nat} (started : s.1.started = true) (current : s.1.current = none)
    (hlefts : L lefts s.1.left) (hrows : lefts.length < rows) :
    Answers (nextPair on left right rows) s
      (pairs on (left.schema.append right.schema) lefts rights).head?
      (Left on left right rights L R (pairs on (left.schema.append right.schema) lefts rights).tail) := by
  induction lefts generalizing s rows with
  | nil =>
    obtain _ | rows := rows
    · exact absurd hrows (Nat.not_lt_zero _)
    unfold nextPair
    refine (takeLeft_end hleft started current hlefts).bind ?_
    rintro c ⟨hstarted, hcurrent, hc⟩
    exact ⟨c, rfl, .between hstarted hcurrent hc⟩
  | cons l lefts ih =>
    obtain _ | rows := rows
    · exact absurd hrows (Nat.not_lt_zero _)
    refine nextPair_of_takeLeft on hright (takeLeft_next hleft hright started current hlefts) ?_
    exact fun c hstarted hcurrent hc => ih (s := (c, s.2)) hstarted hcurrent hc (Nat.lt_of_succ_lt_succ hrows)

/-- A join gives the pairs of all left rows, each with all right rows. -/
theorem gives : (source on left right).Gives
    (pairs on (left.schema.append right.schema) allLefts rights) (Left on left right rights L R) where
  init s := by
    refine (hleft.init (s.1.left, s.2)).onPart.bind ?_
    rintro _ ⟨part, hpart, rfl⟩
    exact ⟨_, rfl, .between rfl rfl hpart⟩
  next {rows s} h := by
    change Answers (next on left right) s _ _
    unfold next
    refine Answers.of_ok (Step.state_run s) ?_
    have hcheck : (Step.check s.1.started (.operator (.notStarted "join")) :
        Step (JoinCursor σ τ × Pool) Unit) s = (.ok (), s) := by
      cases h with
      | between started => rw [started]; rfl
      | within started => rw [started]; rfl
    refine Answers.of_ok hcheck ?_
    cases h with
    | between started current hlefts =>
      exact nextPair_between on hleft hright started current hlefts
        (Nat.lt_succ_of_le (Nat.le_succ_of_le (hleft.bound (s := (s.1.left, s.2)) hlefts)))
    | within started current hl hlefts hothers =>
      refine nextPair_of_takeLeft on hright (takeLeft_current started current hl hlefts hothers) ?_
      exact fun c hstarted hcurrent hc => nextPair_between on hleft hright hstarted hcurrent hc
        (Nat.lt_succ_of_le (hleft.bound (s := (s.1.left, s.2)) hlefts))
  rows_over {rows c} h := by
    cases h with
    | between _ _ hlefts => exact over_pairs on (hleft.rows_over hlefts) hright.all_over
    | within _ _ hl hlefts hothers =>
      refine List.forall_mem_append.mpr ⟨over_pairsOf on hl (hright.rows_over hothers), ?_⟩
      exact over_pairs on (hleft.rows_over hlefts) hright.all_over
  all_over := over_pairs on hleft.all_over hright.all_over
  bound {rows s} h := by
    have hall := hright.bound_all (s.1.right, s.2)
    change rows.length ≤ (left.bound (s.1.left, s.2) + 1) * right.bound (s.1.right, s.2)
    rw [Nat.succ_mul]
    cases h with
    | between _ _ hlefts =>
      have hle := Nat.mul_le_mul (hleft.bound (s := (s.1.left, s.2)) hlefts) hall
      exact Nat.le_trans (length_pairs_le ..) (Nat.le_trans hle (Nat.le_add_right ..))
    | within _ _ _ hlefts hothers =>
      have hle := Nat.mul_le_mul (hleft.bound (s := (s.1.left, s.2)) hlefts) hall
      have hcurrent := hright.bound (s := (s.1.right, s.2)) hothers
      rw [List.length_append, Nat.add_comm]
      refine Nat.add_le_add (Nat.le_trans (length_pairs_le ..) hle) ?_
      exact Nat.le_trans (length_pairsOf_le ..) hcurrent
  bound_all s := by
    have hle := Nat.mul_le_mul (hleft.bound_all (s.1.left, s.2)) (hright.bound_all (s.1.right, s.2))
    refine Nat.le_trans (length_pairs_le ..) (Nat.le_trans hle ?_)
    exact Nat.mul_le_mul_right _ (Nat.le_succ _)

end Gives

end Join

/-! ## Aggregates -/

/-- An aggregate that was started has its rows. -/
structure Aggregate.Left (a : Aggregate) (rows : List Row) (c : AggregateCursor σ) : Prop where
  started : c.started = true
  results : c.results = rows
  rows_over : ∀ row ∈ rows, row.Over a.output

/-- An aggregate gives the groups of the rows that its input gives. -/
theorem Aggregate.gives {a : Aggregate} {child : Source σ} {all : List Row} {L : List Row → σ → Prop}
    (hchild : child.Gives all L) (fits : a.Fits child.schema) (range : a.InRange all) :
    (a.source child).Gives (a.summary all) a.Left where
  init s := by
    refine (hchild.init (s.1.child, s.2)).onPart.bind ?_
    rintro _ ⟨part, hpart, rfl⟩
    refine (hchild.drain hpart).onPart.bind ?_
    rintro _ ⟨part', -, rfl⟩
    refine (Answers.ofExcept (C := fun c => True) (rows_eq fits hchild.all_over range) trivial).bind ?_
    exact fun c _ => ⟨_, rfl, rfl, rfl, fits.over_summary hchild.all_over⟩
  next {rows s} h := by
    have hcheck : (Step.check s.1.started (.operator (.notStarted "aggregate")) :
        Step (AggregateCursor σ × Pool) Unit) s = (.ok (), s) := by
      rw [h.started]
      rfl
    refine Answers.of_ok (Step.read_run _ s) (Answers.of_ok hcheck ?_)
    refine ⟨_, congrArg (fun l => (Except.ok (List.head? l), _)) h.results, h.started, ?_, ?_⟩
    · exact congrArg List.tail h.results
    · exact fun row hrow => h.rows_over row (List.mem_of_mem_tail hrow)
  rows_over h := h.rows_over
  all_over := fits.over_summary hchild.all_over
  bound {rows s} h := by
    rw [← h.results]
    exact Nat.le_add_right ..
  bound_all s := by
    refine Nat.le_trans (length_summary_le a all) ?_
    exact Nat.le_trans (hchild.bound_all (s.1.child, s.2)) (Nat.le_add_left ..)

end PageStore
