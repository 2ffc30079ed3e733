-- The actions of a client as what they ask of the pool. Rows that are put in, taken out
-- and walked over, by scans or by trees of operators, are requests of the transactions
-- for which they are asked; nothing but a commit or an abort ends a transaction.
import PageStore.Proofs.Operator.Keeps
import PageStore.Proofs.Pool.TwoPhase
import PageStore.Proofs.Session.Effects

namespace PageStore.Session

open Pool

/-! ## Who acts -/

/-- Rows are put in, taken out and walked over, operators run, and transactions end. -/
def InTransaction : Action → Prop
  | .insert .. | .delete .. => True
  | .scan .. | .openScan .. | .nextRows .. | .rewind .. => True
  | .exec .. | .openOperator .. | .callOperator .. => True
  | .commit .. | .abort .. => True
  | _ => False

/-- The action is the end of this transaction. -/
def Ends : Action → TxId → Prop
  | .commit tx, u | .abort tx, u => u = tx
  | _, _ => False

/-- The transactions for which an action is carried out. -/
def Acts (s : Session) : Action → TxId → Prop
  | .insert tx _ _, u | .delete tx _, u | .scan tx _, u | .commit tx, u | .abort tx, u => u = tx
  | .nextRows name _, u => ∃ scan, s.scans.get? name = some scan ∧ u = scan.tx
  | .exec query _, u => ∃ plan, query.plan s.pool.catalog = .ok plan ∧ plan.Acts u
  | .callOperator name _, u => ∃ o, s.operators.get? name = some o ∧ o.plan.Acts u
  | _, _ => False

/-- The transactions and the tables for which an action puts rows in or takes rows out, and in which. -/
def Changes (s : Session) : Action → TxId → TableId → Prop
  | .insert tx of _, u, table => u = tx ∧ table = of
  | .delete tx place, u, table => u = tx ∧ table = place.page.table
  | .exec query _, u, table => ∃ plan, query.plan s.pool.catalog = .ok plan ∧ plan.PutsInto u table
  | .callOperator name _, u, table => ∃ o, s.operators.get? name = some o ∧ o.plan.PutsInto u table
  | _, _, _ => False

theorem eq_of_ends {a : Action} {tx : TxId} (h : Ends a tx) : a = .commit tx ∨ a = .abort tx := by
  cases a
  case commit u => exact .inl (congrArg Action.commit (show tx = u from h).symm)
  case abort u => exact .inr (congrArg Action.abort (show tx = u from h).symm)
  all_goals exact absurd h id

theorem acts_of_ends (s : Session) {a : Action} {tx : TxId} (h : Ends a tx) : Acts s a tx := by
  rcases eq_of_ends h with rfl | rfl
  · rfl
  · rfl

/-! ## Walks -/

/-- The name of a walk over a table. -/
inductive Walker where
  | scan (name : String)
  | operator (name : String)

/-- The walk of this name as it is now. An operator is one if it is a scan and nothing else. -/
def walk? (s : Session) : Walker → Option Scan
  | .scan name => s.scans.get? name
  | .operator name =>
    match s.operators.get? name with
    | some { plan := .scan _ _ _, cursor } => some cursor
    | _ => none

/-- The action is about this walk. -/
def Names (w : Walker) : Action → Prop
  | .openScan name _ _ | .nextRows name _ | .rewind name => w = .scan name
  | .openOperator name _ | .callOperator name _ => w = .operator name
  | _ => False

/-- The action puts another walk in the place of this one. -/
def Opens (w : Walker) : Action → Prop
  | .openScan name _ _ => w = .scan name
  | .openOperator name _ => w = .operator name
  | _ => False

theorem inTransaction_of_names {w : Walker} {a : Action} (h : Names w a) : InTransaction a := by
  cases a <;> trivial

/-! ## What an action comes to -/

/-- What becomes of the pool: requests of those who act, or the end of a transaction. -/
inductive Works (s : Session) (a : Action) (q : Pool) : Prop where
  | requests (made : Requests (Acts s a) (Changes s a) s.pool q)
  | ends (tx : TxId) (outcome : Outcome) (ends : Ends a tx) (result : q = (complete tx outcome s.pool).2)

/-- The scans in all operators are those of their trees. -/
def OperatorsStand (s : Session) : Prop := ∀ name o, s.operators.get? name = some o → o.plan.Stands o.cursor

structure Effect (s : Session) (a : Action) (t : Session) : Prop where
  works : Works s a t.pool
  stand : OperatorsStand t
  walks : ∀ w, ¬ Names w a → t.walk? w = s.walk? w

section Effect

variable {s t : Session} {a : Action} (stand : OperatorsStand s)

include stand

/-- Nothing but the pool changes. -/
theorem effect_of_pool (works : Works s a t.pool) (scans : t.scans = s.scans)
    (operators : t.operators = s.operators) : Effect s a t := by
  refine ⟨works, fun name o ho => stand name o (operators ▸ ho), fun w _ => ?_⟩
  cases w <;> simp only [walk?, scans, operators]

/-- Scans change under one name. -/
theorem effect_of_scan {name : String} (works : Works s a t.pool) (names : Names (.scan name) a)
    (others : ∀ other, other ≠ name → t.scans.get? other = s.scans.get? other)
    (operators : t.operators = s.operators) : Effect s a t := by
  refine ⟨works, fun name o ho => stand name o (operators ▸ ho), fun w hw => ?_⟩
  cases w with
  | scan other =>
    refine others other fun heq => hw ?_
    rw [heq]
    exact names
  | operator other => simp only [walk?, operators]

/-- An operator is put under a name. -/
theorem effect_of_operator {name : String} {o : Operator} (works : Works s a t.pool)
    (names : Names (.operator name) a) (scans : t.scans = s.scans)
    (operators : t.operators = s.operators.insert name o) (stands : o.plan.Stands o.cursor) :
    Effect s a t := by
  refine ⟨works, fun other o' ho' => ?_, fun w hw => ?_⟩
  · rw [operators, Assoc.get?_insert] at ho'
    split at ho'
    · exact Option.some.inj ho' ▸ stands
    · exact stand other o' ho'
  · cases w with
    | scan other => simp only [walk?, scans]
    | operator other =>
      have hother : name ≠ other := fun heq => hw (heq ▸ names)
      simp only [walk?, operators, Assoc.get?_insert, if_neg hother]

end Effect

theorem planOf_ends (query : Query) (s : Session) : (planOf query).Ends s fun r t =>
    t = s ∧ ∀ plan, r = .ok plan → query.plan s.pool.catalog = .ok plan := by
  unfold planOf
  exact Step.Ends.of_ok (Step.state_run s) ⟨rfl, fun _ h => h⟩

/-- What is asked of the pool for a tree is asked for its transactions, and rows are put in by its inserts. -/
theorem plan_made (plan : Plan) (p : Pool) : plan.source.Keeps plan.Stands (Made plan.Acts plan.PutsInto p) :=
  plan.keeps (fun _ mine id _ h => h.fetch mine id .shared)
    (fun _ _ puts _ _ typed h => h.insert (Plan.acts_of_putsInto puts) puts typed)

theorem nextRows_effect (name : String) (count : Nat) {s : Session} (stand : OperatorsStand s) :
    (perform (.nextRows name count)).Ends s fun _ t => Effect s (.nextRows name count) t := by
  cases hscan : s.scans.get? name with
  | none =>
    have hnothing : ∀ t, t = s → Effect s (.nextRows name count) t := by
      rintro t rfl
      exact effect_of_pool stand (.requests .refl) rfl rfl
    simp only [perform]
    refine Step.Ends.bind (Step.Ends.each (I := fun t => t = s) ?_ rfl) ?_ (fun _ t ht => hnothing t ht)
    · rintro _ _ t rfl
      rw [Step.Ends, scanNext_missing hscan]
    · exact fun _ t ht => hnothing t ht
  | some scan =>
    have own : ∀ other, s.scans.get? name = some other → other.tx = scan.tx := by
      intro other hother
      rw [hscan, Option.some.injEq] at hother
      rw [hother]
    refine (nextRows_ends count own).mono fun _ t h => ?_
    have mine : Acts s (.nextRows name count) scan.tx := ⟨scan, hscan, rfl⟩
    exact effect_of_scan stand (.requests (.single (Looks.request mine h.looks))) rfl h.others h.operators

theorem exec_effect (query : Query) (calls : List OperatorCall) {s : Session} (keyed : Keyed s.pool)
    (stand : OperatorsStand s) :
    (perform (.exec query calls)).Ends s fun _ t => Effect s (.exec query calls) t := by
  simp only [perform]
  refine Step.Ends.bind (planOf_ends query s) ?_ ?_
  · rintro plan t ⟨rfl, hplan⟩
    have hmade := (Operator.callAll_keeps calls (o := .ofPlan plan) (plan_made plan t.pool)
      plan.stands_fresh ⟨.refl, keyed⟩).pool
    have hacts : ∀ u, plan.Acts u → Acts t (.exec query calls) u := fun u hu => ⟨plan, hplan plan rfl, hu⟩
    have hputs : ∀ u table, plan.PutsInto u table → Changes t (.exec query calls) u table :=
      fun u table h => ⟨plan, hplan plan rfl, h⟩
    exact effect_of_pool stand (.requests (hmade.requests.mono hacts hputs)) rfl rfl
  · rintro e t ⟨rfl, -⟩
    exact effect_of_pool stand (.requests .refl) rfl rfl

theorem callOperator_effect (name : String) (call : OperatorCall) {s : Session} (keyed : Keyed s.pool)
    (stand : OperatorsStand s) :
    (perform (.callOperator name call)).Ends s fun _ t => Effect s (.callOperator name call) t := by
  simp only [perform]
  refine Step.Ends.of_ok (Step.state_run s) (Step.Ends.ofOption ?_ ?_)
  · intro o ho
    have hkept := Operator.call_keeps (plan_made o.plan s.pool) (stand name o ho) ⟨.refl, keyed⟩ call
    have hacts : ∀ u, o.plan.Acts u → Acts s (.callOperator name call) u := fun u hu => ⟨o, ho, hu⟩
    have hputs : ∀ u table, o.plan.PutsInto u table → Changes s (.callOperator name call) u table :=
      fun u table h => ⟨o, ho, h⟩
    have hafter : ∀ t : Session, t.pool = (o.call s.pool call).2.2 → t.scans = s.scans →
        t.operators = s.operators.insert name (o.call s.pool call).2.1 →
        Effect s (.callOperator name call) t := by
      intro t hpool hscans hoperators
      have hmade : Requests (Acts s (.callOperator name call)) (Changes s (.callOperator name call)) s.pool t.pool :=
        hpool ▸ hkept.pool.requests.mono hacts hputs
      exact effect_of_operator stand (.requests hmade) rfl hscans hoperators hkept.stands
    refine Step.Ends.of_ok (Step.update_run _ s) (Step.Ends.ofExcept ?_ ?_)
    · exact fun _ _ => hafter _ rfl rfl rfl
    · exact fun _ _ => hafter _ rfl rfl rfl
  · exact fun _ => effect_of_pool stand (.requests .refl) rfl rfl

theorem openOperator_effect (name : String) (query : Query) {s : Session} (stand : OperatorsStand s) :
    (perform (.openOperator name query)).Ends s fun _ t => Effect s (.openOperator name query) t := by
  simp only [perform]
  refine Step.Ends.bind (planOf_ends query s) ?_ ?_
  · rintro plan t ⟨rfl, -⟩
    exact effect_of_operator stand (.requests .refl) rfl rfl rfl plan.stands_fresh
  · rintro e t ⟨rfl, -⟩
    exact effect_of_pool stand (.requests .refl) rfl rfl

theorem perform_effect (a : Action) (asked : InTransaction a) {s : Session} (keyed : Keyed s.pool)
    (stand : OperatorsStand s) : (perform a).Ends s fun _ t => Effect s a t := by
  cases a
  case insert tx table fields =>
    simp only [perform]
    refine onPool_ends ((Database.insert_ends tx table fields keyed).and
      (Database.insert_table tx table fields keyed) |>.mono ?_)
    rintro r q ⟨⟨row, typed, -, hin⟩ | ⟨-, rfl⟩, hplace⟩
    · refine effect_of_pool stand (.requests (.single (Inserts.request rfl typed hin ?_))) rfl rfl
      exact fun place hr own => ⟨rfl, hplace own place hr⟩
    · exact effect_of_pool stand (.requests .refl) rfl rfl
  case delete tx place =>
    simp only [perform]
    refine onPool_ends ((Database.delete_ends tx place keyed).mono fun r q h => ?_)
    exact effect_of_pool stand (.requests (.single (Deletes.request rfl h ⟨rfl, rfl⟩))) rfl rfl
  case scan tx table =>
    simp only [perform]
    refine onPool_ends ((Database.scan_ends tx table s.pool).mono fun r q h => ?_)
    exact effect_of_pool stand (.requests (.single (Looks.request rfl h))) rfl rfl
  case openScan name tx table =>
    refine effect_of_scan stand (.requests .refl) rfl (fun other hother => ?_) rfl
    exact (Assoc.get?_insert ..).trans (if_neg hother.symm)
  case rewind name =>
    refine effect_of_scan stand (.requests .refl) rfl (fun other hother => ?_) rfl
    exact (Assoc.get?_modify ..).trans (if_neg hother.symm)
  case nextRows name count => exact nextRows_effect name count stand
  case exec query calls => exact exec_effect query calls keyed stand
  case openOperator name query => exact openOperator_effect name query stand
  case callOperator name call => exact callOperator_effect name call keyed stand
  case commit tx =>
    simp only [perform]
    exact onPool_ends (f := fun _ => .nothing) (effect_of_pool stand (.ends tx .commit rfl rfl) rfl rfl)
  case abort tx =>
    simp only [perform]
    exact onPool_ends (f := fun _ => .nothing) (effect_of_pool stand (.ends tx .abort rfl rfl) rfl rfl)
  all_goals exact absurd asked id

/-- The pages that the client keeps do not matter here. -/
theorem run_effect (a : Action) (asked : InTransaction a) {s : Session} (keyed : Keyed s.pool)
    (stand : OperatorsStand s) : Effect s a (run a s).2 := by
  obtain ⟨works, hstand, hwalks⟩ := perform_effect a asked keyed stand
  exact ⟨works, hstand, hwalks⟩

end PageStore.Session
