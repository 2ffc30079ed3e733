-- Trees of joins and aggregates over lists. A tree stands for one list of rows: a leaf
-- for its own, a join for the pairs of its inputs, an aggregate for the groups of its
-- input. The calls of the tree are the calls of a cursor over that list, which every
-- start puts back to the front, whatever was called before.
import PageStore.Operator.Query
import PageStore.Proofs.Operator.Totals

namespace PageStore

/-! ## What trees stand for -/

namespace Query

/-- No leaf reads a table or was told to fail, and no node puts rows into a table. -/
def OverLists : Query → Prop
  | values _ _ failInit failAt => failInit = none ∧ failAt = none
  | scan _ _ => False
  | join _ left right => left.OverLists ∧ right.OverLists
  | aggregate _ _ _ child => child.OverLists
  | insert _ _ _ => False

end Query

/-- The rows that an answer has. -/
def CallAnswer.given : CallAnswer → List Row
  | nothing => []
  | row r => r.toList
  | rows rs => rs
  | schema _ => []

namespace Plan

/-- The rows that a tree over lists stands for. -/
def denote : Plan → List Row
  | replay r => r.rows
  | scan _ _ _ => []
  | join on left right => Join.pairs on (left.schema.append right.schema) left.denote right.denote
  | aggregate a child => a.summary child.denote
  | insert _ _ => []

/-- Every aggregate of the tree has room for its values. -/
def InRange : Plan → Prop
  | replay _ => True
  | scan _ _ _ => True
  | join _ left right => left.InRange ∧ right.InRange
  | aggregate a child => child.InRange ∧ a.InRange child.denote
  | insert _ child => child.InRange

instance decidableInRange : (p : Plan) → Decidable p.InRange
  | replay _ => inferInstanceAs (Decidable True)
  | scan _ _ _ => inferInstanceAs (Decidable True)
  | join _ left right =>
    have := decidableInRange left
    have := decidableInRange right
    inferInstanceAs (Decidable (left.InRange ∧ right.InRange))
  | aggregate a child =>
    have := decidableInRange child
    inferInstanceAs (Decidable (child.InRange ∧ a.InRange child.denote))
  | insert _ child => decidableInRange child

/-- Fewer than 2 ^ 32 rows come into every aggregate of the tree. -/
def FewRows : Plan → Prop
  | replay _ => True
  | scan _ _ _ => True
  | join _ left right => left.FewRows ∧ right.FewRows
  | aggregate _ child => child.FewRows ∧ child.denote.length < 0x100000000
  | insert _ child => child.FewRows

instance decidableFewRows : (p : Plan) → Decidable p.FewRows
  | replay _ => inferInstanceAs (Decidable True)
  | scan _ _ _ => inferInstanceAs (Decidable True)
  | join _ left right =>
    have := decidableFewRows left
    have := decidableFewRows right
    inferInstanceAs (Decidable (left.FewRows ∧ right.FewRows))
  | aggregate _ child =>
    have := decidableFewRows child
    inferInstanceAs (Decidable (child.FewRows ∧ child.denote.length < 0x100000000))
  | insert _ child => decidableFewRows child

/-- However many of its rows came into an aggregate of the tree, its tallies have numbers of 64 bits. -/
def In64 : Plan → Prop
  | replay _ => True
  | scan _ _ _ => True
  | join _ left right => left.In64 ∧ right.In64
  | aggregate a child =>
    child.In64 ∧ ∀ front, front <+: child.denote → ∀ group ∈ a.groups front, group.2.In64
  | insert _ child => child.In64

/-- A machine, which has numbers of 64 bits, finds the same groups in every aggregate of the tree. -/
def SameInWords : Plan → Prop
  | replay _ => True
  | scan _ _ _ => True
  | join _ left right => left.SameInWords ∧ right.SameInWords
  | aggregate a child => child.SameInWords ∧ a.groupsWord child.denote = a.groups child.denote
  | insert _ child => child.SameInWords

theorem In64.same {plan : Plan} (h : plan.In64) : plan.SameInWords := by
  induction plan with
  | replay => trivial
  | scan => trivial
  | join on left right ihl ihr => exact ⟨ihl h.1, ihr h.2⟩
  | aggregate a child ih => exact ⟨ih h.1, Aggregate.groupsWord_eq h.2⟩
  | insert target child ih => exact ih h

/-- The rows that come if a tree is asked before it was started, or the refusal. -/
def atFirst : Plan → Except Error (List Row)
  | replay r => .ok r.rows
  | scan _ _ _ => .ok []
  | join _ _ _ => .error (.operator (.notStarted "join"))
  | aggregate _ _ => .error (.operator (.notStarted "aggregate"))
  | insert _ _ => .error (.operator (.notStarted "insert"))

/-- Rows over the columns of a tree, or its refusal to be asked before it was started. -/
def Proper (p : Plan) : Except Error CallAnswer → Prop
  | .ok a => ∀ row ∈ a.given, row.Over p.schema
  | .error e => p.atFirst = .error e

/-- A call of a cursor over the rows of a tree, and what is left of them after it. -/
def answer (p : Plan) (rest : Except Error (List Row)) :
    OperatorCall → Except Error CallAnswer × Except Error (List Row)
  | .init => (.ok .nothing, .ok p.denote)
  | .next => (rest.map fun rows => .row rows.head?, rest.map List.tail)
  | .collect => (.ok (.rows p.denote), .ok [])
  | .schema => (.ok (.schema p.schema), rest)

/-- Calls of a cursor over the rows of a tree, one after the other. -/
def answers (p : Plan) : Except Error (List Row) → List OperatorCall →
    List (Except Error CallAnswer) × Except Error (List Row)
  | rest, [] => ([], rest)
  | rest, c :: calls =>
    let (r, rest) := p.answer rest c
    let (rs, rest) := p.answers rest calls
    (r :: rs, rest)

/-- Rows come one by one, and nothing behind the last one. -/
theorem answers_next (p : Plan) (rows : List Row) (n : Nat) :
    (p.answers (.ok rows) (List.replicate n .next)).1 =
      (List.range n).map fun i => .ok (.row rows[i]?) := by
  induction n generalizing rows with
  | zero => rfl
  | succ n ih =>
    have htail : (p.answers (.ok rows.tail) (List.replicate n .next)).1 =
        (List.range n).map fun i => .ok (.row rows[i + 1]?) := by
      rw [ih]
      exact List.map_congr_left fun i _ => by rw [List.getElem?_tail]
    rw [List.replicate_succ, List.range_succ_eq_map, List.map_cons, List.map_map, ← List.head?_eq_getElem?]
    exact congrArg (_ :: ·) htail

/-- What may come out of a tree: rows of those that it stands for, or its refusal. -/
def Sound (p : Plan) : Except Error (List Row) → Prop
  | .ok rows => ∀ row ∈ rows, row ∈ p.denote
  | .error e => p.atFirst = .error e

theorem atFirst_sound (p : Plan) : p.Sound p.atFirst := by
  cases p with
  | replay r => exact fun _ hrow => hrow
  | scan tx table schema => exact fun _ hrow => nomatch hrow
  | join on left right => rfl
  | aggregate a child => rfl
  | insert target child => rfl

theorem answer_sound {p : Plan} {rest : Except Error (List Row)} (h : p.Sound rest) (c : OperatorCall) :
    p.Sound ((p.answer rest c).1.map CallAnswer.given) ∧ p.Sound (p.answer rest c).2 := by
  cases c with
  | init => exact ⟨fun _ hrow => (nomatch hrow), fun _ hrow => hrow⟩
  | next =>
    cases rest with
    | ok rows =>
      refine ⟨fun row hrow => h row ?_, fun row hrow => h row (List.mem_of_mem_tail hrow)⟩
      exact List.mem_of_mem_head? (Option.mem_toList.mp hrow)
    | error e => exact ⟨h, h⟩
  | collect => exact ⟨fun _ hrow => hrow, fun _ hrow => (nomatch hrow)⟩
  | schema => exact ⟨fun _ hrow => (nomatch hrow), h⟩

theorem answers_sound {p : Plan} {rest : Except Error (List Row)} (h : p.Sound rest) (calls : List OperatorCall) :
    ∀ r ∈ (p.answers rest calls).1, p.Sound (r.map CallAnswer.given) := by
  induction calls generalizing rest with
  | nil => exact fun r hr => nomatch hr
  | cons c calls ih =>
    obtain ⟨hfirst, hrest⟩ := answer_sound h c
    exact List.forall_mem_cons.mpr ⟨hfirst, ih hrest⟩

end Plan

/-! ## What trees do -/

namespace Operator

variable {plan : Plan} {Left : List Row → plan.Cursor → Prop} {rest : Except Error (List Row)} {o : Operator}

/-- An operator from which these rows are still to come, or which refuses to be asked because nothing
was started yet. -/
inductive At (plan : Plan) (Left : List Row → plan.Cursor → Prop) : Except Error (List Row) → Operator → Prop
  | untouched {e} (refuses : ∀ p, plan.source.next (plan.fresh, p) = (.error e, (plan.fresh, p))) :
    At plan Left (.error e) (ofPlan plan)
  | going {rows c} (left : Left rows c) : At plan Left (.ok rows) { plan, cursor := c }

theorem run_of_answers {α : Type} {m : Step (plan.Cursor × Pool) α} {c : plan.Cursor} {p : Pool} {a : α}
    {C : plan.Cursor → Prop} (h : Source.Answers m (c, p) a C) :
    ∃ d, run { plan, cursor := c } m p = (.ok a, { plan, cursor := d }, p) ∧ C d := by
  obtain ⟨d, hrun, hd⟩ := h
  refine ⟨d, ?_, hd⟩
  unfold run
  rw [hrun]

/-- One call is a call of the cursor over the rows of the tree. -/
theorem call_at (gives : plan.source.Gives plan.denote Left) (hat : At plan Left rest o) (p : Pool)
    (c : OperatorCall) :
    ∃ o', o.call p c = ((plan.answer rest c).1, o', p) ∧ At plan Left (plan.answer rest c).2 o' := by
  obtain ⟨cursor, hcursor⟩ : ∃ cursor, o = { plan, cursor } := by
    cases hat with
    | untouched => exact ⟨_, rfl⟩
    | going => exact ⟨_, rfl⟩
  cases c with
  | init =>
    obtain ⟨d, hrun, hd⟩ := run_of_answers (gives.init (cursor, p))
    refine ⟨_, ?_, .going hd⟩
    rw [hcursor, call, init, hrun]
    rfl
  | next =>
    cases hat with
    | untouched refuses =>
      refine ⟨_, ?_, .untouched refuses⟩
      rw [call, Operator.next, run, ofPlan, refuses]
      rfl
    | going left =>
      obtain ⟨d, hrun, hd⟩ := run_of_answers (gives.next (s := (_, p)) left)
      refine ⟨_, ?_, .going hd⟩
      rw [call, Operator.next, hrun]
      rfl
  | collect =>
    obtain ⟨d, hrun, hd⟩ := run_of_answers (gives.collect (cursor, p))
    refine ⟨_, ?_, .going hd⟩
    rw [hcursor, call, collect, hrun]
    rfl
  | schema =>
    subst hcursor
    exact ⟨_, rfl, hat⟩

/-- All calls are calls of the cursor over the rows of the tree. -/
theorem callAll_at (gives : plan.source.Gives plan.denote Left) (hat : At plan Left rest o) (p : Pool)
    (calls : List OperatorCall) :
    ∃ o', callAll calls o p = ((plan.answers rest calls).1, o', p) ∧
      At plan Left (plan.answers rest calls).2 o' := by
  induction calls generalizing rest o with
  | nil => exact ⟨o, rfl, hat⟩
  | cons c calls ih =>
    obtain ⟨o', hcall, hat'⟩ := call_at gives hat p c
    obtain ⟨o'', hcalls, hat''⟩ := ih hat'
    refine ⟨o'', ?_, hat''⟩
    simp only [callAll, hcall, hcalls, Plan.answers]

end Operator

/-! ## Trees that were built -/

namespace Plan

variable {c : Catalog} {q : Query} {plan : Plan}

/-- A tree over lists that could be built gives what it stands for, and was not started yet. -/
theorem gives (overLists : q.OverLists) (built : q.plan c = .ok plan) (range : plan.InRange) :
    ∃ Left, plan.source.Gives plan.denote Left ∧ Operator.At plan Left plan.atFirst (Operator.ofPlan plan) := by
  induction q generalizing plan with
  | values columns rows failInit failAt =>
    obtain ⟨schema, -, built⟩ := Step.exists_of_bind built
    obtain ⟨rows', hrows, built⟩ := Step.exists_of_bind built
    cases built
    refine ⟨_, Replay.gives overLists.1 overLists.2 fun row hrow => ?_, .going rfl⟩
    obtain ⟨fields, -, hfields⟩ := Step.exists_of_mapM hrows row hrow
    exact Row.over_of_ofFields hfields
  | scan tx table => exact overLists.elim
  | join on left right ihl ihr =>
    obtain ⟨l, hl, built⟩ := Step.exists_of_bind built
    obtain ⟨r, hr, built⟩ := Step.exists_of_bind built
    obtain ⟨-, -, built⟩ := Step.exists_of_bind built
    cases built
    obtain ⟨L, hleft, -⟩ := ihl overLists.1 hl range.1
    obtain ⟨R, hright, -⟩ := ihr overLists.2 hr range.2
    exact ⟨_, Join.gives on hleft hright, .untouched fun _ => rfl⟩
  | aggregate word field groupBy child ih =>
    obtain ⟨child', hchild, built⟩ := Step.exists_of_bind built
    obtain ⟨function, -, built⟩ := Step.exists_of_bind built
    obtain ⟨a, ha, built⟩ := Step.exists_of_bind built
    cases built
    obtain ⟨L, hgives, -⟩ := ih overLists hchild range.1
    exact ⟨_, Aggregate.gives hgives (Aggregate.fits_of_ofFields ha) range.2, .untouched fun _ => rfl⟩
  | insert tx table child => exact overLists.elim

/-- What comes into an aggregate is what its input stands for, which is few rows. -/
theorem in64 (overLists : q.OverLists) (built : q.plan c = .ok plan) (range : plan.InRange)
    (few : plan.FewRows) : plan.In64 := by
  induction q generalizing plan with
  | values columns rows failInit failAt =>
    obtain ⟨schema, -, built⟩ := Step.exists_of_bind built
    obtain ⟨rows', -, built⟩ := Step.exists_of_bind built
    cases built
    trivial
  | scan tx table => exact overLists.elim
  | join on left right ihl ihr =>
    obtain ⟨l, hl, built⟩ := Step.exists_of_bind built
    obtain ⟨r, hr, built⟩ := Step.exists_of_bind built
    obtain ⟨-, -, built⟩ := Step.exists_of_bind built
    cases built
    exact ⟨ihl overLists.1 hl range.1 few.1, ihr overLists.2 hr range.2 few.2⟩
  | aggregate word field groupBy child ih =>
    obtain ⟨child', hchild, built⟩ := Step.exists_of_bind built
    obtain ⟨function, -, built⟩ := Step.exists_of_bind built
    obtain ⟨a, ha, built⟩ := Step.exists_of_bind built
    cases built
    have hchildLists : child.OverLists := overLists
    obtain ⟨L, hgives, -⟩ := gives hchildLists hchild range.1
    have fits := Aggregate.fits_of_ofFields ha
    refine ⟨ih hchildLists hchild range.1 few.1, fun front hfront group hgroup => ?_⟩
    have hcovers : a.Covers front := fun row hrow => fits.covers hgives.all_over row (hfront.subset hrow)
    exact Aggregate.in64_of_groups hcovers (Nat.lt_of_le_of_lt hfront.length_le few.2) hgroup
  | insert tx table child => exact overLists.elim

end Plan

namespace Operator

/-- A tree of joins and aggregates over lists, whatever was called of it before, gives exactly what it
stands for after every start, and nothing behind that. Every row that it ever gives is one over its
columns, and it never fails but for being asked before its first start; the pool is left alone. With fewer
than 2 ^ 32 rows for every aggregate nothing on the way needs more than 64 bits, so that a machine comes to
the same. -/
theorem a_tree_over_lists_gives_what_it_stands_for {c : Catalog} {q : Query} {plan : Plan}
    (overLists : q.OverLists) (built : q.plan c = .ok plan) (range : plan.InRange) (few : plan.FewRows)
    (earlier : List OperatorCall) (p : Pool) :
    plan.In64 ∧ plan.SameInWords ∧ ∃ o, callAll earlier (ofPlan plan) p = ((plan.answers plan.atFirst earlier).1, o, p) ∧
      (∀ n, (callAll (.init :: List.replicate n .next) o p).1 =
        .ok .nothing :: (List.range n).map fun i => .ok (.row plan.denote[i]?)) ∧
      (∀ n, (callAll (.collect :: List.replicate n .next) o p).1 =
        .ok (.rows plan.denote) :: List.replicate n (.ok (.row none))) ∧
      (∀ row ∈ plan.denote, row.Over plan.schema) ∧
      ∀ r ∈ (plan.answers plan.atFirst earlier).1, plan.Proper r := by
  obtain ⟨Left, gives, hat⟩ := Plan.gives overLists built range
  obtain ⟨o, hearlier, hat'⟩ := callAll_at gives hat p earlier
  have h64 := Plan.in64 overLists built range few
  refine ⟨h64, h64.same, o, hearlier, fun n => ?_, fun n => ?_, gives.all_over, fun r hr => ?_⟩
  · obtain ⟨o', hcalls, -⟩ := callAll_at gives hat' p (.init :: List.replicate n .next)
    rw [hcalls]
    exact congrArg (_ :: ·) (plan.answers_next plan.denote n)
  · obtain ⟨o', hcalls, -⟩ := callAll_at gives hat' p (.collect :: List.replicate n .next)
    rw [hcalls]
    refine congrArg (_ :: ·) ((plan.answers_next [] n).trans ?_)
    simp [List.map_const']
  · have hsound := Plan.answers_sound plan.atFirst_sound earlier r hr
    cases r with
    | ok a => exact fun row hrow => gives.all_over row (hsound row hrow)
    | error e => exact hsound

/-- Some people, each beside the sum of what they bought. -/
def sumsOfPeople : Query :=
  .join ⟨0, .equal, 0⟩
    (.values [⟨"id", .int⟩, ⟨"name", .str⟩]
      [[.int 1, .str "ann"], [.int 2, .str "bo"], [.int 3, .str "cy"]] none none)
    (.aggregate "sum" 1 (some 0)
      (.values [⟨"person", .int⟩, ⟨"amount", .int⟩]
        [[.int 3, .int 30], [.int 1, .int 10], [.int 1, .int 11]] none none))

def noTables : Catalog := .inMemory 64

def emptyPool : Pool :=
  { config := { capacity := 1, pageSize := 64 }
    storage := { catalog := noTables, disk := { directory := "d" } } }

theorem a_join_that_was_half_read_starts_again :
    ∃ plan, sumsOfPeople.OverLists ∧ sumsOfPeople.plan noTables = .ok plan ∧ plan.InRange ∧ plan.FewRows ∧
      ∃ o, (callAll [.init, .next] (ofPlan plan) emptyPool).2 = (o, emptyPool) ∧
        (callAll [.collect, .next] o emptyPool).1 = [.ok (.rows plan.denote), .ok (.row none)] ∧
        plan.denote.map Row.fields =
          [[.int 1, .str "ann", .int 1, .int 21], [.int 3, .str "cy", .int 3, .int 30]] := by
  have overLists : sumsOfPeople.OverLists := ⟨⟨rfl, rfl⟩, ⟨rfl, rfl⟩⟩
  refine ⟨_, overLists, by with_unfolding_all rfl, ?range, ?few, ?_⟩
  case range => decide +kernel
  case few => decide +kernel
  obtain ⟨-, -, o, hearlier, -, hcollect, -⟩ := a_tree_over_lists_gives_what_it_stands_for (c := noTables) overLists
    (by with_unfolding_all rfl) (by decide +kernel) (by decide +kernel) [.init, .next] emptyPool
  exact ⟨o, congrArg Prod.snd hearlier, hcollect 1, by decide +kernel⟩

end Operator

end PageStore
