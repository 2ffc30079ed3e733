-- Starts of operators that fail. A join, an aggregate or an insert goes on if one of its
-- starts has succeeded, however long ago: one that fails later leaves it as it was, with
-- its inputs wherever they have come to, so that it still gives rows of the earlier run,
-- or puts rows in. Until a start has succeeded it is refused to go on, and nothing happens.
import PageStore.Proofs.Operator.Inserts

namespace PageStore

namespace Source

variable {σ ω : Type}

/-! ## Requests -/

inductive Request where
  | init
  | next
  deriving Repr, DecidableEq

/-- A start gives no row. -/
def ask (source : Source σ) : Request → Step (σ × Pool) (Option Row)
  | .init => do
    source.init
    return none
  | .next => source.next

/-- Requests one after the other, each with what has come of it. -/
def askAll (source : Source σ) :
    List Request → σ × Pool → List (Request × Except Error (Option Row)) × (σ × Pool)
  | [], s => ([], s)
  | request :: rest, s =>
    let (answer, m) := source.ask request s
    let (answers, t) := source.askAll rest m
    ((request, answer) :: answers, t)

/-- One of the starts has succeeded. -/
def Begun (answers : List (Request × Except Error (Option Row))) : Prop :=
  ∃ answer ∈ answers, answer.1 = .init ∧ answer.2 = .ok none

/-- An operator of this kind with a mark that it was started. A start that succeeds sets the mark, and one
that fails changes nothing of the operator's own; it is refused to go on without the mark. -/
structure Marked (source : Source σ) (kind : String) (started : σ → Bool) (own : σ → ω) : Prop where
  init : ∀ s, source.init.Ends s fun r t =>
    match r with
    | .ok () => started t.1 = true
    | .error _ => started t.1 = started s.1 ∧ own t.1 = own s.1
  next : ∀ s, source.next.Ends s fun _ t => started t.1 = started s.1
  refuses : ∀ s, started s.1 = false → source.next s = (.error (.operator (.notStarted kind)), s)

/-- Whatever was asked of an operator that was not started before: as long as no start has succeeded it is
refused to go on, and nothing happens. Once one has, the operator is started for good, and a start that
fails changes nothing of the operator's own. -/
structure StartedForGood (source : Source σ) (kind : String) (started : σ → Bool) (own : σ → ω) : Prop where
  refused : ∀ requests s, started s.1 = false → ¬ Begun (source.askAll requests s).1 →
    source.next (source.askAll requests s).2 =
      (.error (.operator (.notStarted kind)), (source.askAll requests s).2)
  started_iff : ∀ requests s, started s.1 = false →
    (started (source.askAll requests s).2.1 = true ↔ Begun (source.askAll requests s).1)
  kept : ∀ s e t, source.init s = (.error e, t) → started t.1 = started s.1 ∧ own t.1 = own s.1

namespace Marked

variable {source : Source σ} {kind : String} {started : σ → Bool} {own : σ → ω}

/-- The mark after one request: it was there, or this is a start that has succeeded. -/
theorem ask_ends (h : source.Marked kind started own) (request : Request) (s : σ × Pool) :
    (source.ask request).Ends s fun r t =>
      started t.1 = true ↔ started s.1 = true ∨ request = .init ∧ r = .ok none := by
  cases request with
  | init =>
    refine Step.Ends.bind (h.init s) (fun _ t hstarted => ?_) (fun e t hkept => ?_)
    · exact iff_of_true hstarted (.inr ⟨rfl, rfl⟩)
    · have hstarted : started t.1 = started s.1 := hkept.1
      simp [hstarted]
  | next =>
    refine (h.next s).mono fun r t hstarted => ?_
    simp [hstarted]

theorem askAll_started (h : source.Marked kind started own) (requests : List Request) (s : σ × Pool) :
    started (source.askAll requests s).2.1 = true ↔
      started s.1 = true ∨ Begun (source.askAll requests s).1 := by
  induction requests generalizing s with
  | nil => simp [askAll, Begun]
  | cons request rest ih =>
    have hfirst := h.ask_ends request s
    unfold Step.Ends at hfirst
    simp only [askAll, ih, hfirst, Begun, List.exists_mem_cons_iff, or_assoc]

theorem startedForGood (h : source.Marked kind started own) : source.StartedForGood kind started own where
  refused requests s fresh never := by
    refine h.refuses _ (Bool.eq_false_iff.mpr fun hstarted => ?_)
    obtain hbefore | hbegun := (h.askAll_started requests s).mp hstarted
    · exact nomatch fresh.symm.trans hbefore
    · exact never hbegun
  started_iff requests s fresh := by
    rw [h.askAll_started, fresh]
    exact or_iff_right Bool.false_ne_true
  kept s e t run := by
    have hinit := h.init s
    rw [Step.Ends, run] at hinit
    exact hinit

end Marked

end Source

open Source

/-! ## What an operation leaves alone -/

section Leaves

variable {σ τ κ α β γ : Type}

/-- The operation leaves a part of the cursor as it is. -/
def Source.Leaves (part : κ → γ) (m : Step (κ × Pool) α) : Prop := ∀ s, m.Ends s fun _ t => part t.1 = part s.1

variable {part : κ → γ}

theorem Source.Leaves.bind {m : Step (κ × Pool) α} {f : α → Step (κ × Pool) β} (hm : Leaves part m)
    (hf : ∀ a, Leaves part (f a)) : Leaves part (m >>= f) := fun s =>
  (hm s).bind (fun a t ht => (hf a t).mono fun _ _ hu => hu.trans ht) fun _ _ ht => ht

end Leaves

variable {σ τ : Type}

/-! ## The three operators -/

/-- The mark, and the left row whose pairs are being given. -/
def JoinCursor.own (c : JoinCursor σ τ) : Bool × Option Row := (c.started, c.current)

/-- The mark, and the rows that were not given yet. -/
def AggregateCursor.own (c : AggregateCursor σ) : Bool × List Row := (c.started, c.results)

/-- The mark, and whether the number of the rows was given. -/
def InsertCursor.own (c : InsertCursor σ) : Bool × Bool := (c.started, c.finished)

namespace Join

variable (on : Predicate) (left : Source σ) (right : Source τ)

theorem takeLeft_leaves : Leaves JoinCursor.started (takeLeft left right) := by
  unfold takeLeft
  refine .bind (fun _ => rfl) fun c => .bind (fun _ => rfl) fun _ => ?_
  split
  · exact fun _ => rfl
  · refine .bind (fun _ => rfl) fun row => ?_
    split
    · exact fun _ => rfl
    · exact .bind (fun _ => rfl) fun _ _ => rfl

theorem nextMatch_leaves (schema : Schema) (row : Row) (calls : Nat) :
    Leaves (JoinCursor.started (σ := σ)) (nextMatch on schema right row calls) := by
  induction calls with
  | zero => exact fun _ => rfl
  | succ calls ih =>
    unfold nextMatch
    refine .bind (fun _ => rfl) fun other => ?_
    split
    · exact fun _ => rfl
    · split
      · exact .bind (fun _ => rfl) fun _ _ => rfl
      · exact ih

theorem nextPair_leaves (rows : Nat) : Leaves JoinCursor.started (nextPair on left right rows) := by
  induction rows with
  | zero => exact fun _ => rfl
  | succ rows ih =>
    unfold nextPair
    refine .bind (takeLeft_leaves left right) fun row => ?_
    split
    · exact fun _ => rfl
    · refine .bind (fun _ => rfl) fun _ => .bind (fun s => nextMatch_leaves on right _ _ _ s) fun joined => ?_
      split
      · exact .bind (fun _ => rfl) fun _ _ => rfl
      · exact ih

theorem marked : (source on left right).Marked "join" JoinCursor.started JoinCursor.own where
  init s := by
    have hleft : Leaves JoinCursor.own (onLeft (τ := τ) left.init) := fun _ => rfl
    change (init left).Ends s _
    unfold init
    exact Step.Ends.bind (hleft s) (fun _ t _ => rfl) fun e t hown => ⟨congrArg Prod.fst hown, hown⟩
  next s := by
    change (next on left right).Ends s _
    unfold next
    apply Step.Ends.of_ok (Step.state_run s)
    exact Step.Ends.check (fun _ => nextPair_leaves on left right _ s) fun _ => rfl
  refuses s fresh := by
    change next on left right s = _
    unfold next
    refine (Step.bind_of_ok (Step.state_run s) _).trans ?_
    simp only [fresh]
    rfl

end Join

theorem Aggregate.marked (a : Aggregate) (child : Source σ) :
    (a.source child).Marked "aggregate" AggregateCursor.started AggregateCursor.own where
  init s := by
    have hstart : Leaves AggregateCursor.own (onChild child.init) := fun _ => rfl
    have hdrain : Leaves AggregateCursor.own (onChild child.drain) := fun _ => rfl
    change (a.init child).Ends s _
    unfold init
    refine Step.Ends.bind (hstart s) (fun _ t ht => ?_) fun e t ht => ⟨congrArg Prod.fst ht, ht⟩
    refine Step.Ends.bind (hdrain t) (fun input u hu => ?_) fun e u hu =>
      ⟨congrArg Prod.fst (hu.trans ht), hu.trans ht⟩
    exact Step.Ends.ofExcept (fun _ _ => rfl) fun e _ => ⟨congrArg Prod.fst (hu.trans ht), hu.trans ht⟩
  next s := by
    change next.Ends s _
    unfold next
    apply Step.Ends.of_ok (Step.read_run _ s)
    exact Step.Ends.check (fun _ => rfl) fun _ => rfl
  refuses s fresh := by
    change next s = _
    unfold next cursor
    refine (Step.bind_of_ok (Step.read_run _ s) _).trans ?_
    simp only [fresh]
    rfl

theorem Aggregate.next_answer {s m : AggregateCursor σ × Pool} (same : m.1.own = s.1.own) :
    (next m).1 = (next s).1 := by
  obtain ⟨⟨child, results, started⟩, p⟩ := s
  obtain ⟨⟨child', results', started'⟩, p'⟩ := m
  cases same
  cases started <;> rfl

namespace InsertTarget

variable (t : InsertTarget) (child : Source σ)

theorem insertAll_leaves (calls count : Nat) : Leaves InsertCursor.started (t.insertAll child calls count) := by
  induction calls generalizing count with
  | zero => exact fun _ => rfl
  | succ calls ih =>
    unfold insertAll
    refine .bind (fun _ => rfl) fun row => ?_
    split
    · exact fun _ => rfl
    · exact .bind (fun _ => rfl) fun _ => ih _

theorem marked : (t.source child).Marked "insert" InsertCursor.started InsertCursor.own where
  init s := by
    have hchild : Leaves InsertCursor.own (onChild child.init) := fun _ => rfl
    change (init child).Ends s _
    unfold init
    exact Step.Ends.bind (hchild s) (fun _ t _ => rfl) fun e t hown => ⟨congrArg Prod.fst hown, hown⟩
  next s := by
    change (t.next child).Ends s _
    unfold next
    apply Step.Ends.of_ok (Step.state_run s)
    refine Step.Ends.check (fun _ => ?_) fun _ => rfl
    split
    · rfl
    · refine Step.Ends.bind (t.insertAll_leaves child _ _ s) (fun n u hu => ?_) fun _ _ hu => hu
      refine Step.Ends.of_ok (Step.update_run _ u) ?_
      exact Step.Ends.ofExcept (fun _ _ => hu) fun _ _ => hu
  refuses s fresh := by
    change t.next child s = _
    unfold next
    refine (Step.bind_of_ok (Step.state_run s) _).trans ?_
    simp only [fresh]
    rfl

end InsertTarget

/-! ## The law -/

/-- A join, an aggregate or an insert over any inputs is refused to go on until one of its starts has
succeeded, and nothing happens then; from that start on it goes on, also after starts that fail, which
change nothing but its inputs. An aggregate gives the same row after such a start as it would have given
before it. -/
theorem an_operator_is_started_for_good (on : Predicate) (left : Source σ) (right : Source τ) (a : Aggregate)
    (t : InsertTarget) (child : Source σ) :
    (Join.source on left right).StartedForGood "join" JoinCursor.started JoinCursor.own ∧
    (a.source child).StartedForGood "aggregate" AggregateCursor.started AggregateCursor.own ∧
    (∀ s e m, (a.source child).init s = (.error e, m) →
      ((a.source child).next m).1 = ((a.source child).next s).1) ∧
    (t.source child).StartedForGood "insert" InsertCursor.started InsertCursor.own := by
  have haggregate := (a.marked child).startedForGood
  exact ⟨(Join.marked on left right).startedForGood, haggregate,
    fun s e m run => Aggregate.next_answer (haggregate.kept s e m run).2, (t.marked child).startedForGood⟩

/-- Two numbers that are given anew after each start, save the second one, which fails. -/
def failsAgain : Replay where
  schema := ⟨[⟨"n", .int⟩]⟩
  rows := [5, 6].map fun n => { schema := ⟨[⟨"n", .int⟩]⟩, fields := [.int n] }
  failInit := some 2

def counting : Aggregate where
  function := .count
  field := 0
  groupBy := none
  output := ⟨[⟨"COUNT(n)", .int⟩]⟩

/-- A request, and the values that it has given, if it has not failed. -/
def given (answer : Request × Except Error (Option Row)) : Request × Option (Option (List Field)) :=
  (answer.1, answer.2.toOption.map fun row => row.map Row.fields)

/-- After its second start, which fails, the join gives a pair, the aggregate gives the number of the rows
that it had counted, and the insert puts both rows in. -/
theorem an_operator_goes_on_after_a_start_that_failed :
    let requests : List Request := [.init, .init, .next]
    let joined := (Join.source ⟨0, .equal, 0⟩ failsAgain.source { failsAgain with failInit := none }.source).askAll
      requests ({ left := {}, right := {} }, Pool.roomForTwo)
    let counted := (counting.source failsAgain.source).askAll requests ({ child := {} }, Pool.roomForTwo)
    let inserted := (InsertTarget.source { tx := 7, table := 1, schema := failsAgain.schema }
      failsAgain.source).askAll requests ({ child := {} }, Pool.roomForTwo)
    joined.1.map given = [(.init, some none), (.init, none), (.next, some (some [.int 5, .int 5]))] ∧
    counted.1.map given = [(.init, some none), (.init, none), (.next, some (some [.int 2]))] ∧
    inserted.1.map given = [(.init, some none), (.init, none), (.next, some (some [.int 2]))] ∧
    (Pool.roomForTwo.row? ⟨⟨1, 0⟩, 0⟩).map Row.fields = none ∧
    (inserted.2.2.row? ⟨⟨1, 0⟩, 0⟩).map Row.fields = some [.int 5] := by
  decide +kernel

end PageStore
