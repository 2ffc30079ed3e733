-- Joins over inputs that fail now and then. Whoever goes on after each failure is given,
-- for one left row after the other, the pairs with the right rows that came before the
-- right input failed; a left input that fails loses nothing. Each call brings the end
-- nearer: it gives a pair, or it has used up a left row or a failure of the left input.
import PageStore.Proofs.Operator.Inserts

namespace PageStore

variable {σ τ : Type}

/-! ## Inputs that fail -/

/-- The error of a call, if it fails: by the number of starts that were tried until then, and by its own number
since the last of them. A start has the number zero. -/
abbrev Faults : Type := Nat → Nat → Option Error

/-- The operator has these rows to give and fails by a pattern. A start that fails leaves it where it is, and so
does a call. `At k j rows` says of a cursor that so many starts were tried, that so many calls came after the
last one, and which rows are still to come. -/
structure Source.Falters (source : Source σ) (all : List Row) (faults : Faults)
    (At : Nat → Nat → List Row → σ → Prop) : Prop where
  init : ∀ {k j rows s}, At k j rows s.1 → source.init.Ends s fun r t =>
    match faults (k + 1) 0 with
    | none => r = .ok () ∧ At (k + 1) 0 all t.1
    | some e => r = .error e ∧ At (k + 1) 0 rows t.1
  next : ∀ {k j rows s}, At k j rows s.1 → source.next.Ends s fun r t =>
    match faults k (j + 1) with
    | none => r = .ok rows.head? ∧ At k (j + 1) rows.tail t.1
    | some e => r = .error e ∧ At k (j + 1) rows t.1
  rowsOver : ∀ {k j rows c}, At k j rows c → ∀ row ∈ rows, row.Over source.schema
  bound : ∀ {k j rows s}, At k j rows s.1 → rows.length ≤ source.bound s

namespace Source.Falters

variable {source : Source σ} {all rows : List Row} {faults : Faults} {At : Nat → Nat → List Row → σ → Prop}
  {k j : Nat} {s : σ × Pool} {e : Error}

theorem init_fails (h : source.Falters all faults At) (hat : At k j rows s.1) (fault : faults (k + 1) 0 = some e) :
    ∃ c p, source.init s = (.error e, (c, p)) ∧ At (k + 1) 0 rows c := by
  have hinit := h.init hat
  simp only [fault] at hinit
  exact ⟨_, _, Prod.ext hinit.1 rfl, hinit.2⟩

theorem init_succeeds (h : source.Falters all faults At) (hat : At k j rows s.1) (free : faults (k + 1) 0 = none) :
    ∃ c p, source.init s = (.ok (), (c, p)) ∧ At (k + 1) 0 all c := by
  have hinit := h.init hat
  simp only [free] at hinit
  exact ⟨_, _, Prod.ext hinit.1 rfl, hinit.2⟩

theorem next_fails (h : source.Falters all faults At) (hat : At k j rows s.1) (fault : faults k (j + 1) = some e) :
    ∃ c p, source.next s = (.error e, (c, p)) ∧ At k (j + 1) rows c := by
  have hnext := h.next hat
  simp only [fault] at hnext
  exact ⟨_, _, Prod.ext hnext.1 rfl, hnext.2⟩

theorem next_gives (h : source.Falters all faults At) (hat : At k j rows s.1) (free : faults k (j + 1) = none) :
    ∃ c p, source.next s = (.ok rows.head?, (c, p)) ∧ At k (j + 1) rows.tail c := by
  have hnext := h.next hat
  simp only [free] at hnext
  exact ⟨_, _, Prod.ext hnext.1 rfl, hnext.2⟩

end Source.Falters

namespace Faults

variable {faults : Faults} {k j : Nat} {rows : List Row} {row : Row}

/-- The first of these rows, up to the first failure, if they come with the calls from the number `j` on. -/
def before (faults : Faults) (k : Nat) : Nat → List Row → List Row
  | _, [] => []
  | j, row :: rows =>
    match faults k j with
    | some _ => []
    | none => row :: faults.before k (j + 1) rows

/-- The rows that come with the calls after a start, up to the first failure. -/
def reached (faults : Faults) (k : Nat) (rows : List Row) : List Row :=
  match faults k 0 with
  | some _ => []
  | none => faults.before k 1 rows

theorem before_of_some {e : Error} (h : faults k j = some e) : faults.before k j rows = [] := by
  cases rows with
  | nil => rfl
  | cons row rows => simp only [before, h]

theorem before_of_none (h : faults k j = none) :
    faults.before k j (row :: rows) = row :: faults.before k (j + 1) rows := by
  simp only [before, h]

theorem reached_of_some {e : Error} (h : faults k 0 = some e) : faults.reached k rows = [] := by
  simp only [reached, h]

theorem reached_of_none (h : faults k 0 = none) : faults.reached k rows = faults.before k 1 rows := by
  simp only [reached, h]

theorem before_begins (faults : Faults) (k j : Nat) (rows : List Row) : faults.before k j rows <+: rows := by
  induction rows generalizing j with
  | nil => exact List.prefix_refl _
  | cons row rows ih =>
    unfold before
    split
    · exact List.nil_prefix
    · exact (List.prefix_cons_inj row).mpr (ih (j + 1))

theorem before_eq (free : ∀ i, j ≤ i → i < j + rows.length → faults k i = none) :
    faults.before k j rows = rows := by
  induction rows generalizing j with
  | nil => rfl
  | cons row rows ih =>
    rw [List.length_cons] at free
    rw [before_of_none (free j (Nat.le_refl j) (by omega)), ih fun i hi hlt => free i (by omega) (by omega)]

theorem reached_begins (faults : Faults) (k : Nat) (rows : List Row) : faults.reached k rows <+: rows := by
  unfold reached
  split
  · exact List.nil_prefix
  · exact before_begins ..

theorem reached_eq (free : ∀ i ≤ rows.length, faults k i = none) : faults.reached k rows = rows := by
  rw [reached_of_none (free 0 (Nat.zero_le _))]
  exact before_eq fun i _ hi => free i (by omega)

end Faults

open Source

/-- An operator that gives rows from a list and fails by a pattern. -/
structure Flawed where
  schema : Schema
  rows : List Row
  faults : Faults

structure FlawedCursor where
  starts : Nat := 0
  /-- The calls since the last start. -/
  calls : Nat := 0
  position : Nat := 0
  deriving Repr, DecidableEq

namespace Flawed

def init (f : Flawed) : Step (FlawedCursor × Pool) Unit := do
  Source.change fun c => { c with starts := c.starts + 1, calls := 0 }
  let c ← Source.cursor
  match f.faults c.starts 0 with
  | some e => Step.fail e
  | none => Source.change fun c => { c with position := 0 }

def next (f : Flawed) : Step (FlawedCursor × Pool) (Option Row) := do
  Source.change fun c => { c with calls := c.calls + 1 }
  let c ← Source.cursor
  match f.faults c.starts c.calls with
  | some e => Step.fail e
  | none =>
    Source.change fun c => { c with position := c.position + 1 }
    return f.rows[c.position]?

def source (f : Flawed) : Source FlawedCursor where
  schema := f.schema
  init := f.init
  next := f.next
  bound _ := f.rows.length

structure At (f : Flawed) (k j : Nat) (rows : List Row) (c : FlawedCursor) : Prop where
  starts : c.starts = k
  calls : c.calls = j
  rows : rows = f.rows.drop c.position

theorem falters {f : Flawed} (rowsOver : ∀ row ∈ f.rows, row.Over f.schema) :
    f.source.Falters f.rows f.faults f.At where
  init {k j rows s} h := by
    obtain ⟨rfl, -, hrows⟩ := h
    change f.init.Ends s _
    unfold init
    refine Step.Ends.of_ok (Step.update_run _ s) (Step.Ends.of_ok (Step.read_run _ _) ?_)
    dsimp only
    cases f.faults (s.1.starts + 1) 0 with
    | some e => exact ⟨rfl, rfl, rfl, hrows⟩
    | none => exact ⟨rfl, rfl, rfl, rfl⟩
  next {k j rows s} h := by
    obtain ⟨rfl, rfl, hrows⟩ := h
    change f.next.Ends s _
    unfold next
    refine Step.Ends.of_ok (Step.update_run _ s) (Step.Ends.of_ok (Step.read_run _ _) ?_)
    dsimp only
    cases f.faults s.1.starts (s.1.calls + 1) with
    | some e => exact ⟨rfl, rfl, rfl, hrows⟩
    | none =>
      refine Step.Ends.of_ok (Step.update_run _ _) ⟨?_, rfl, rfl, ?_⟩
      · rw [hrows, List.head?_drop]
        rfl
      · rw [hrows, List.tail_drop]
        rfl
  rowsOver h row hrow := by
    rw [h.rows] at hrow
    exact rowsOver row (List.mem_of_mem_drop hrow)
  bound h := by
    rw [h.rows, List.length_drop]
    exact Nat.sub_le ..

end Flawed

namespace Join

theorem onLeft_run {α : Type} {m : Step (σ × Pool) α} {s : JoinCursor σ τ × Pool} {r : Except Error α} {part : σ}
    {p : Pool} (run : m (s.1.left, s.2) = (r, (part, p))) : onLeft m s = (r, ({ s.1 with left := part }, p)) := by
  unfold onLeft onPart Step.focus
  rw [run]

theorem onRight_run {α : Type} {m : Step (τ × Pool) α} {s : JoinCursor σ τ × Pool} {r : Except Error α} {part : τ}
    {p : Pool} (run : m (s.1.right, s.2) = (r, (part, p))) : onRight m s = (r, ({ s.1 with right := part }, p)) := by
  unfold onRight onPart Step.focus
  rw [run]

/-! ## What is still to come -/

section Shares

variable (on : Predicate) (schema : Schema) (faults : Faults) (rights : List Row)

/-- The pairs of a left row with the right rows that come before the right input fails, which was started for
it and `k` times in all. -/
def share (k : Nat) (l : Row) : List Row := pairsOf on schema l (faults.reached k rights)

/-- The pairs of the left rows, for which the right input is started one time after the other. -/
def shares : Nat → List Row → List Row
  | _, [] => []
  | k, l :: lefts => share on schema faults rights k l ++ shares (k + 1) lefts

theorem shares_eq (k : Nat) (lefts : List Row) :
    shares on schema faults rights k lefts =
      (lefts.mapIdx fun i l => share on schema faults rights (k + i) l).flatten := by
  induction lefts generalizing k with
  | nil => rfl
  | cons l lefts ih =>
    rw [shares, ih, List.mapIdx_cons, List.flatten_cons]
    simp only [Nat.add_assoc, Nat.add_comm 1, Nat.add_zero]

theorem share_begins (k : Nat) (l : Row) : share on schema faults rights k l <+: pairsOf on schema l rights :=
  ((Faults.reached_begins faults k rights).filter _).map _

end Shares

/-- The rows that calls have given. -/
def rowsOf (answers : List (Except Error (Option Row))) : List Row :=
  answers.filterMap fun answer => answer.toOption.join

/-- A join of two inputs that falter, each with its rows and its pattern. -/
structure Faltering (σ τ : Type) where
  on : Predicate
  left : Source σ
  right : Source τ
  lefts : List Row
  rights : List Row
  leftFaults : Faults
  rightFaults : Faults
  L : Nat → Nat → List Row → σ → Prop
  R : Nat → Nat → List Row → τ → Prop
  leftLaw : left.Falters lefts leftFaults L
  rightLaw : right.Falters rights rightFaults R

namespace Faltering

variable (J : Faltering σ τ)

abbrev schema : Schema := J.left.schema.append J.right.schema

/-- The pairs of a left row with those right rows that come before the right input fails. -/
def found (b i : Nat) (l : Row) (others : List Row) : List Row :=
  pairsOf J.on J.schema l (J.rightFaults.before b i others)

def shares (b : Nat) (lefts : List Row) : List Row := Join.shares J.on J.schema J.rightFaults J.rights b lefts

/-- Which pairs are still to come, and how many left rows and failures of the left input at most: none of its
failures has a number above `last`. A left row counts as long as it is the current one. -/
inductive ToCome (k last : Nat) : List Row → Nat → JoinCursor σ τ → Prop
  | between {lefts others j b i c} (started : c.started = true) (current : c.current = none)
    (atLeft : J.L k j lefts c.left) (atRight : J.R b i others c.right) :
    ToCome k last (J.shares (b + 1) lefts) (lefts.length + (last - j)) c
  | within {l lefts others j b i c} (started : c.started = true) (current : c.current = some l)
    (isOver : l.Over J.left.schema) (atLeft : J.L k j lefts c.left) (atRight : J.R b i others c.right) :
    ToCome k last (J.found b (i + 1) l others ++ J.shares (b + 1) lefts) (lefts.length + 1 + (last - j)) c

/-- A call gives the first pair that is still to come, or it fails and has used something up. -/
def Proceeds (k last : Nat) (rows : List Row) (n : Nat) (r : Except Error (Option Row))
    (t : JoinCursor σ τ × Pool) : Prop :=
  match r with
  | .ok none => rows = []
  | .ok (some row) => ∃ rest n', rows = row :: rest ∧ n' ≤ n ∧ J.ToCome k last rest n' t.1
  | .error _ => ∃ n' < n, J.ToCome k last rows n' t.1

variable {J} {k last j b i : Nat} {l : Row} {lefts others : List Row} {s : JoinCursor σ τ × Pool}

theorem shares_of_some {e : Error} (fault : J.rightFaults b 0 = some e) :
    J.shares b (l :: lefts) = J.shares (b + 1) lefts := by
  simp only [shares, Join.shares, share, Faults.reached_of_some fault, pairsOf, List.filter_nil, List.map_nil,
    List.nil_append]

theorem shares_of_none (free : J.rightFaults b 0 = none) :
    J.shares b (l :: lefts) = J.found b 1 l J.rights ++ J.shares (b + 1) lefts := by
  simp only [shares, Join.shares, share, Faults.reached_of_none free, found]

/-! ## One call -/

/-- The next match is the first one that comes before a failure. Where the right input fails, none is left. -/
theorem nextMatch_ends (isOver : l.Over J.left.schema) {calls : Nat} (atRight : J.R b i others s.1.right)
    (enough : others.length < calls) :
    (nextMatch J.on J.schema J.right l calls).Ends s fun r t =>
      ∃ part i' rest, J.R b i' rest part ∧ t.1 = { s.1 with right := part } ∧
        match r with
        | .ok (some row) => J.found b (i + 1) l others = row :: J.found b (i' + 1) l rest
        | _ => J.found b (i + 1) l others = [] := by
  induction others generalizing s calls i with
  | nil =>
    obtain _ | calls := calls
    · exact absurd enough (Nat.not_lt_zero _)
    unfold nextMatch
    cases hfault : J.rightFaults b (i + 1) with
    | some e =>
      obtain ⟨part, p, run, hpart⟩ := J.rightLaw.next_fails (s := (s.1.right, s.2)) atRight hfault
      exact Step.Ends.of_error (onRight_run run) ⟨part, _, [], hpart, rfl, rfl⟩
    | none =>
      obtain ⟨part, p, run, hpart⟩ := J.rightLaw.next_gives (s := (s.1.right, s.2)) atRight hfault
      exact Step.Ends.of_ok (onRight_run run) ⟨part, _, [], hpart, rfl, rfl⟩
  | cons other others ih =>
    obtain _ | calls := calls
    · exact absurd enough (Nat.not_lt_zero _)
    unfold nextMatch
    cases hfault : J.rightFaults b (i + 1) with
    | some e =>
      obtain ⟨part, p, run, hpart⟩ := J.rightLaw.next_fails (s := (s.1.right, s.2)) atRight hfault
      refine Step.Ends.of_error (onRight_run run) ⟨part, _, _, hpart, rfl, ?_⟩
      simp only [found, Faults.before_of_some hfault, pairsOf, List.filter_nil, List.map_nil]
    | none =>
      obtain ⟨part, p, run, hpart⟩ := J.rightLaw.next_gives (s := (s.1.right, s.2)) atRight hfault
      have hother : other.Over J.right.schema := J.rightLaw.rowsOver atRight other List.mem_cons_self
      refine Step.Ends.of_ok (onRight_run run) ?_
      dsimp only [List.head?_cons]
      by_cases haccepts : J.on.accepts l other = true
      · have hfound : J.found b (i + 1) l (other :: others) =
            joined J.schema l other :: J.found b (i + 2) l others := by
          rw [found, Faults.before_of_none hfault, pairsOf, List.filter_cons_of_pos haccepts]
          rfl
        rw [if_pos haccepts, append_eq isOver hother]
        exact ⟨part, _, others, hpart, rfl, hfound⟩
      · have hfound : J.found b (i + 1) l (other :: others) = J.found b (i + 2) l others := by
          rw [found, Faults.before_of_none hfault, pairsOf, List.filter_cons_of_neg haccepts]
          rfl
        rw [if_neg haccepts, hfound]
        exact ih hpart (Nat.lt_of_succ_lt_succ enough)

theorem Proceeds.mono {rows : List Row} {n n' : Nat} {r : Except Error (Option Row)} {t : JoinCursor σ τ × Pool}
    (h : J.Proceeds k last rows n r t) (le : n ≤ n') : J.Proceeds k last rows n' r t := by
  match r, h with
  | .ok none, h => exact h
  | .ok (some _), ⟨rest, n₀, hrows, hle, hrest⟩ => exact ⟨rest, n₀, hrows, Nat.le_trans hle le, hrest⟩
  | .error _, ⟨n₀, hlt, hrows⟩ => exact ⟨n₀, Nat.lt_of_lt_of_le hlt le, hrows⟩

/-- Once a left row was taken out, the next pair is one of its own, or else one of the rows behind it. If the
right input fails meanwhile, the left row is lost, and so are the pairs that it has with the rest. -/
theorem nextPair_of_takeLeft {rows : Nat} {m : JoinCursor σ τ × Pool}
    (take : takeLeft J.left J.right s = (.ok (some l), m)) (started : m.1.started = true) (current : m.1.current = none)
    (isOver : l.Over J.left.schema) (atLeft : J.L k j lefts m.1.left) (atRight : J.R b i others m.1.right)
    (later : ∀ t i' rest, t.1.started = true → t.1.current = none → J.L k j lefts t.1.left →
      J.R b i' rest t.1.right → (nextPair J.on J.left J.right rows).Ends t
        (J.Proceeds k last (J.shares (b + 1) lefts) (lefts.length + (last - j)))) :
    (nextPair J.on J.left J.right (rows + 1)).Ends s
      (J.Proceeds k last (J.found b (i + 1) l others ++ J.shares (b + 1) lefts) (lefts.length + 1 + (last - j))) := by
  have enough : others.length < J.right.bound (m.1.right, m.2) + 1 := Nat.lt_succ_of_le (J.rightLaw.bound atRight)
  unfold nextPair
  refine Step.Ends.of_ok take (Step.Ends.of_ok (Step.state_run m) ?_)
  refine Step.Ends.bind (nextMatch_ends isOver atRight enough) ?_ ?_
  · rintro (_ | row) ⟨c, p⟩ ⟨part, i', rest, hpart, rfl, hfound⟩
    · change J.found b (i + 1) l others = [] at hfound
      rw [hfound, List.nil_append]
      refine (later ({ m.1 with right := part }, p) i' rest started current atLeft hpart).mono fun r t h => h.mono ?_
      omega
    · change J.found b (i + 1) l others = row :: J.found b (i' + 1) l rest at hfound
      rw [hfound, List.cons_append]
      exact Step.Ends.of_ok rfl ⟨_, _, rfl, Nat.le_refl _, .within started rfl isOver atLeft hpart⟩
  · rintro e ⟨c, p⟩ ⟨part, i', rest, hpart, rfl, hfound⟩
    change J.found b (i + 1) l others = [] at hfound
    rw [hfound, List.nil_append]
    exact ⟨_, by omega, .between started current atLeft hpart⟩

/-- Where no row is current, the next left row is asked for, and the right input starts anew for it. -/
theorem takeLeft_none (current : s.1.current = none) :
    takeLeft J.left J.right s = (do
      match ← onLeft J.left.next with
      | none => return none
      | some row =>
        onRight J.right.init
        return some row : Step (JoinCursor σ τ × Pool) (Option Row)) s := by
  obtain ⟨⟨left, right, _, started⟩, p⟩ := s
  cases current
  rfl

/-- A left input that fails has used up one of its failures, and nothing else. -/
theorem nextPair_left_fails {rows : Nat} {e : Error} (quiet : ∀ j, last < j → J.leftFaults k j = none)
    (started : s.1.started = true) (current : s.1.current = none) (atLeft : J.L k j lefts s.1.left)
    (atRight : J.R b i others s.1.right) (fault : J.leftFaults k (j + 1) = some e) :
    (nextPair J.on J.left J.right (rows + 1)).Ends s
      (J.Proceeds k last (J.shares (b + 1) lefts) (lefts.length + (last - j))) := by
  have hahead : j + 1 ≤ last := by
    refine Nat.le_of_not_lt fun hlt => ?_
    rw [quiet (j + 1) hlt] at fault
    cases fault
  obtain ⟨part, p, run, hpart⟩ := J.leftLaw.next_fails (s := (s.1.left, s.2)) atLeft fault
  have htake := (takeLeft_none (J := J) current).trans (Step.bind_of_error (onLeft_run run) _)
  unfold nextPair
  exact Step.Ends.of_error htake ⟨_, by omega, .between started current hpart atRight⟩

theorem nextPair_between {rows : Nat} (quiet : ∀ j, last < j → J.leftFaults k j = none)
    (started : s.1.started = true) (current : s.1.current = none) (atLeft : J.L k j lefts s.1.left)
    (atRight : J.R b i others s.1.right) (enough : lefts.length < rows) :
    (nextPair J.on J.left J.right rows).Ends s
      (J.Proceeds k last (J.shares (b + 1) lefts) (lefts.length + (last - j))) := by
  induction lefts generalizing s j b i others rows with
  | nil =>
    obtain _ | rows := rows
    · exact absurd enough (Nat.not_lt_zero _)
    cases hfault : J.leftFaults k (j + 1) with
    | some e => exact nextPair_left_fails quiet started current atLeft atRight hfault
    | none =>
      obtain ⟨part, p, run, -⟩ := J.leftLaw.next_gives (s := (s.1.left, s.2)) atLeft hfault
      have htake := (takeLeft_none (J := J) current).trans (Step.bind_of_ok (onLeft_run run) _)
      unfold nextPair
      exact Step.Ends.of_ok htake rfl
  | cons l lefts ih =>
    obtain _ | rows := rows
    · exact absurd enough (Nat.not_lt_zero _)
    have hover : l.Over J.left.schema := J.leftLaw.rowsOver atLeft l List.mem_cons_self
    rw [List.length_cons] at enough ⊢
    cases hfault : J.leftFaults k (j + 1) with
    | some e => exact nextPair_left_fails quiet started current atLeft atRight hfault
    | none =>
      obtain ⟨part, p, run, hpart⟩ := J.leftLaw.next_gives (s := (s.1.left, s.2)) atLeft hfault
      have htake := (takeLeft_none (J := J) current).trans (Step.bind_of_ok (onLeft_run run) _)
      have hpart : J.L k (j + 1) lefts part := hpart
      cases hstart : J.rightFaults (b + 1) 0 with
      | some e =>
        obtain ⟨part', p', run', hpart'⟩ := J.rightLaw.init_fails (s := (s.1.right, p)) atRight hstart
        rw [shares_of_some hstart]
        unfold nextPair
        exact Step.Ends.of_error (htake.trans (Step.bind_of_error (onRight_run run') _))
          ⟨_, by omega, .between started current hpart hpart'⟩
      | none =>
        obtain ⟨part', p', run', hpart'⟩ := J.rightLaw.init_succeeds (s := (s.1.right, p)) atRight hstart
        have htaken := htake.trans (Step.bind_of_ok (onRight_run run') _)
        rw [shares_of_none hstart]
        refine (nextPair_of_takeLeft htaken started current hover hpart hpart' ?_).mono fun r t h => h.mono (by omega)
        intro t i' rest hstarted hcurrent hlefts hrights
        exact ih hstarted hcurrent hlefts hrights (Nat.lt_of_succ_lt_succ enough)

/-- One call from wherever the join has come to. -/
theorem next_proceeds {rows : List Row} {n : Nat} (quiet : ∀ j, last < j → J.leftFaults k j = none)
    (h : J.ToCome k last rows n s.1) :
    (next J.on J.left J.right).Ends s (J.Proceeds k last rows n) := by
  unfold next
  refine Step.Ends.of_ok (Step.state_run s) ?_
  have hstarted : s.1.started = true := by cases h <;> assumption
  refine Step.Ends.check (fun _ => ?_) fun hfresh => nomatch hfresh.symm.trans hstarted
  cases h with
  | between started current atLeft atRight =>
    have enough := J.leftLaw.bound (s := (s.1.left, s.2)) atLeft
    exact nextPair_between quiet started current atLeft atRight (by omega)
  | @within l lefts others j b i _ started current isOver atLeft atRight =>
    have enough := J.leftLaw.bound (s := (s.1.left, s.2)) atLeft
    have htake : takeLeft J.left J.right s = (.ok (some l), ({ s.1 with current := none }, s.2)) := by
      unfold takeLeft
      refine (Step.bind_of_ok (Step.read_run Prod.fst s) _).trans ?_
      rw [current]
      rfl
    refine nextPair_of_takeLeft htake started rfl isOver atLeft atRight ?_
    intro t i' rest hstarted hcurrent hlefts hrights
    exact nextPair_between quiet hstarted hcurrent hlefts hrights (by omega)

/-! ## All calls -/

theorem calls_end {rows : List Row} {n : Nat} (quiet : ∀ j, last < j → J.leftFaults k j = none)
    (h : J.ToCome k last rows n s.1) :
    ∃ answers, ((source J.on J.left J.right).calls (answers.length + 1) s).1 = answers ++ [.ok none] ∧
      .ok none ∉ answers ∧ rowsOf answers = rows ∧ answers.length ≤ rows.length + n := by
  induction hsize : rows.length + n using Nat.strong_induction_on generalizing rows n s with
  | _ size ih =>
    have hcall := next_proceeds quiet h
    unfold Step.Ends at hcall
    rcases hrun : next J.on J.left J.right s with ⟨r, t⟩
    rw [hrun] at hcall
    have hcalls : ∀ m, ((source J.on J.left J.right).calls (m + 1) s).1 =
        r :: ((source J.on J.left J.right).calls m t).1 := by
      intro m
      change (next J.on J.left J.right s).1 :: ((source J.on J.left J.right).calls m (next J.on J.left J.right s).2).1 = _
      rw [hrun]
    match r, hcall with
    | .ok none, hcall =>
      obtain rfl : rows = [] := hcall
      exact ⟨[], hcalls 0, List.not_mem_nil, rfl, Nat.zero_le _⟩
    | .ok (some row), ⟨rest, n', hrows, hle, hrest⟩ =>
      subst hrows
      rw [List.length_cons] at hsize
      obtain ⟨answers, hanswers, hlast, hgiven, hlength⟩ := ih _ (by omega) hrest rfl
      refine ⟨.ok (some row) :: answers, ?_, ?_, congrArg (row :: ·) hgiven, ?_⟩
      · rw [List.length_cons, hcalls, hanswers, List.cons_append]
      · simpa using hlast
      · rw [List.length_cons]
        omega
    | .error e, ⟨n', hlt, hrest⟩ =>
      obtain ⟨answers, hanswers, hlast, hgiven, hlength⟩ := ih _ (by omega) hrest rfl
      refine ⟨.error e :: answers, ?_, ?_, hgiven, ?_⟩
      · rw [List.length_cons, hcalls, hanswers, List.cons_append]
      · simpa using hlast
      · rw [List.length_cons]
        omega

/-- A start that succeeds leaves the right input alone, and all left rows are to come. -/
theorem toCome_of_init {c : JoinCursor σ τ} {p : Pool} {rows : List Row} (atLeft : J.L k j rows c.left)
    (atRight : J.R b i others c.right) (start : (source J.on J.left J.right).init (c, p) = (.ok (), s)) :
    J.ToCome (k + 1) last (J.shares (b + 1) J.lefts) (J.lefts.length + (last - 0)) s.1 := by
  change init J.left (c, p) = _ at start
  unfold init at start
  cases hstart : J.leftFaults (k + 1) 0 with
  | some e =>
    obtain ⟨part, p', run, -⟩ := J.leftLaw.init_fails (s := (c.left, p)) atLeft hstart
    rw [Step.bind_of_error (onLeft_run run)] at start
    cases start
  | none =>
    obtain ⟨part, p', run, hpart⟩ := J.leftLaw.init_succeeds (s := (c.left, p)) atLeft hstart
    rw [Step.bind_of_ok (onLeft_run run)] at start
    cases start
    exact .between rfl rfl hpart atRight

end Faltering

/-! ## The law -/

/-- A join whose inputs fail by any patterns, the left one not without end, is started and then called on and on,
whatever fails, until there is nothing more, to which it comes: each call that fails has used up a left row or a
failure of the left input. It has given for each left row, in order, the pairs with the right rows that came
before the right input failed, which was started for it; these are the first ones of its pairs, and all of them
if the right input did not fail before its last row. -/
theorem a_join_gives_what_comes_before_a_failure (on : Predicate) {left : Source σ} {right : Source τ}
    {lefts rights rows others : List Row} {leftFaults rightFaults : Faults} {L : Nat → Nat → List Row → σ → Prop}
    {R : Nat → Nat → List Row → τ → Prop} (hleft : left.Falters lefts leftFaults L)
    (hright : right.Falters rights rightFaults R) {c : JoinCursor σ τ} {p : Pool} {k j b i last : Nat}
    (atLeft : L k j rows c.left) (atRight : R b i others c.right)
    (quiet : ∀ j, last < j → leftFaults (k + 1) j = none) {s : JoinCursor σ τ × Pool}
    (start : (source on left right).init (c, p) = (.ok (), s)) :
    let schema := left.schema.append right.schema
    ∃ answers, ((source on left right).calls (answers.length + 1) s).1 = answers ++ [.ok none] ∧
      .ok none ∉ answers ∧ answers.length ≤ (rowsOf answers).length + (lefts.length + last) ∧
      rowsOf answers = (lefts.mapIdx fun n l => share on schema rightFaults rights (b + 1 + n) l).flatten ∧
      ∀ n l, share on schema rightFaults rights n l <+: pairsOf on schema l rights ∧
        ((∀ m ≤ rights.length, rightFaults n m = none) →
          share on schema rightFaults rights n l = pairsOf on schema l rights) := by
  intro schema
  let J : Faltering σ τ := ⟨on, left, right, lefts, rights, leftFaults, rightFaults, L, R, hleft, hright⟩
  obtain ⟨answers, hanswers, hlast, hgiven, hlength⟩ :=
    J.calls_end quiet (J.toCome_of_init atLeft atRight start)
  refine ⟨answers, hanswers, hlast, hgiven ▸ hlength, ?_, fun n l => ⟨share_begins .., fun free => ?_⟩⟩
  · exact hgiven.trans (shares_eq ..)
  · rw [share, Faults.reached_eq free]

/-- A left input whose second call fails. -/
def flawedLeft : Flawed where
  schema := ⟨[⟨"n", .int⟩]⟩
  rows := [5, 6, 7].map fun n => { schema := ⟨[⟨"n", .int⟩]⟩, fields := [.int n] }
  faults
    | 1, 2 => some (.operator (.injected "next"))
    | _, _ => none

/-- A right input with the same rows, of which the third call after the first start fails, and the second start. -/
def flawedRight : Flawed :=
  { flawedLeft with
    faults := fun
      | 1, 3 => some (.operator (.injected "next"))
      | 2, 0 => some (.operator (.injected "init"))
      | _, _ => none }

/-- The first left row loses its last pair and the second one both of its pairs. -/
theorem three_failures_cost_three_pairs :
    flawedLeft.source.Falters flawedLeft.rows flawedLeft.faults flawedLeft.At ∧
    flawedRight.source.Falters flawedRight.rows flawedRight.faults flawedRight.At ∧
    ∃ s answers, (source ⟨0, .lessOrEqual, 0⟩ flawedLeft.source flawedRight.source).init
        ({ left := {}, right := {} }, Pool.roomForTwo) = (.ok (), s) ∧
      ((source ⟨0, .lessOrEqual, 0⟩ flawedLeft.source flawedRight.source).calls (answers.length + 1) s).1 =
        answers ++ [.ok none] ∧ .ok none ∉ answers ∧
      (rowsOf answers).map Row.fields = [[.int 5, .int 5], [.int 5, .int 6], [.int 7, .int 7]] ∧
      (pairs ⟨0, .lessOrEqual, 0⟩ (flawedLeft.schema.append flawedRight.schema) flawedLeft.rows
        flawedRight.rows).length = 6 := by
  have rowsOver : ∀ row ∈ flawedLeft.rows, row.Over flawedLeft.schema := by
    intro row hrow
    obtain ⟨n, -, rfl⟩ := List.mem_map.mp hrow
    exact ⟨rfl, rfl⟩
  have hleft := Flawed.falters rowsOver
  have hright := Flawed.falters (f := flawedRight) rowsOver
  have quiet : ∀ j, 2 < j → flawedLeft.faults 1 j = none := fun
    | _ + 3, _ => rfl
  obtain ⟨answers, hcalls, hend, -, hgiven, -⟩ :=
    a_join_gives_what_comes_before_a_failure ⟨0, .lessOrEqual, 0⟩ hleft hright
      (c := { left := {}, right := {} }) (p := Pool.roomForTwo) ⟨rfl, rfl, rfl⟩ ⟨rfl, rfl, rfl⟩ quiet rfl
  refine ⟨hleft, hright, _, answers, rfl, hcalls, hend, ?_, by decide +kernel⟩
  rw [hgiven]
  decide +kernel

end Join

end PageStore
