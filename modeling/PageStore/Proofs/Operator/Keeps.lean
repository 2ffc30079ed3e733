-- What operators do to the pool. Whatever the tree, its scans get pages for their
-- transactions and its inserts put rows in for theirs, and nothing else is done: what
-- these two keep of the pool, every call of the tree keeps. One case for each kind of node.
import PageStore.Operator.Call
import PageStore.Proofs.Scan

namespace PageStore

variable {σ τ α : Type}

namespace Source

/-- What is known of the cursor and of the pool stays known. -/
def Known (C : σ → Prop) (I : Pool → Prop) (s : σ × Pool) : Prop := C s.1 ∧ I s.2

/-- Every call keeps what is known of the cursor and of the pool. -/
structure Keeps (source : Source σ) (C : σ → Prop) (I : Pool → Prop) : Prop where
  init : ∀ s, Known C I s → source.init.Ends s fun _ t => Known C I t
  next : ∀ s, Known C I s → source.next.Ends s fun _ t => Known C I t

variable {C : σ → Prop} {I : Pool → Prop}

theorem Keeps.drain {source : Source σ} (h : source.Keeps C I) {s : σ × Pool} (hs : Known C I s) :
    source.drain.Ends s fun _ t => Known C I t := by
  unfold Source.drain
  exact Step.Ends.of_ok (Step.state_run s) (Step.Ends.collect h.next hs)

theorem Keeps.collect {source : Source σ} (h : source.Keeps C I) {s : σ × Pool} (hs : Known C I s) :
    source.collect.Ends s fun _ t => Known C I t := by
  unfold Source.collect
  exact Step.Ends.bind (h.init s hs) (fun _ _ ht => h.drain ht) (fun _ _ ht => ht)

/-- A call on a part of a cursor keeps what is known of the whole. -/
theorem onPart_keeps {get : τ → σ} {set : τ → σ → τ} {m : Step (σ × Pool) α} {B : τ → Prop}
    (hget : ∀ c, B c → C (get c)) (hset : ∀ c part, B c → C part → B (set c part))
    (hm : ∀ s, Known C I s → m.Ends s fun _ t => Known C I t) (s : τ × Pool) (hs : Known B I s) :
    (onPart get set m).Ends s fun _ t => Known B I t :=
  Step.Ends.focus ((hm (get s.1, s.2) ⟨hget _ hs.1, hs.2⟩).mono fun _ t ht => ⟨hset _ t.1 hs.1 ht.1, ht.2⟩)

end Source

open Source

/-! ## Leaves -/

theorem Replay.keeps (r : Replay) (I : Pool → Prop) : r.source.Keeps (fun _ => True) I where
  init s hs := by
    refine Step.Ends.of_ok (Step.update_run _ s) (Step.Ends.of_ok (Step.read_run _ _) ?_)
    exact Step.Ends.check (fun _ => hs) (fun _ => hs)
  next s hs := by
    change r.next.Ends s _
    unfold Replay.next
    refine Step.Ends.of_ok (Step.read_run _ s) ?_
    split
    · exact hs
    · exact hs

/-- A scan of this table by this transaction. One that is over has no rows left. -/
structure Scan.Stands (tx : TxId) (table : TableId) (c : Scan) : Prop where
  tx : c.tx = tx
  table : c.table = table
  ended : c.finished = true → c.queue = []

theorem Scan.gave_iff {tx : TxId} {table : TableId} {I : Pool → Prop} {rows : List Row} {s : Scan × Pool} :
    Gave tx table (fun _ _ => I) rows s ↔ Known (Stands tx table) I s := by
  constructor
  · intro h
    obtain ⟨-, -, hpool⟩ := h.known
    exact ⟨⟨h.tx, h.table, fun hover => (h.ended hover).1⟩, hpool⟩
  · rintro ⟨h, hpool⟩
    exact ⟨h.tx, h.table, fun _ => hpool, fun hover => ⟨h.ended hover, 0, hpool⟩⟩

theorem Scan.walk_of_kept {tx : TxId} {table : TableId} {I : Pool → Prop}
    (hfetch : ∀ id p, I p → I (Pool.fetch tx id .shared p).2) : Walk tx table (fun _ _ => I) where
  got n _ p page q hp hrun := by
    have := hfetch ⟨table, n⟩ p hp
    rwa [hrun] at this
  notGot n _ p e q hp hrun := by
    have := hfetch ⟨table, n⟩ p hp
    rwa [hrun] at this

theorem Scan.next_keeps {tx : TxId} {table : TableId} {I : Pool → Prop}
    (hfetch : ∀ id p, I p → I (Pool.fetch tx id .shared p).2) {s : Scan × Pool}
    (hs : Known (Stands tx table) I s) : Scan.next.Ends s fun _ t => Known (Stands tx table) I t := by
  have hgave : Gave tx table (fun _ _ => I) [] s := gave_iff.mpr hs
  refine (next_gives (walk_of_kept hfetch) hgave).mono ?_
  rintro (e | _ | row) t ht
  · exact gave_iff.mp ht
  · exact gave_iff.mp ht.2.1
  · exact gave_iff.mp ht.2

theorem Scan.keeps {tx : TxId} {table : TableId} (schema : Schema) {I : Pool → Prop}
    (hfetch : ∀ id p, I p → I (Pool.fetch tx id .shared p).2) :
    (Scan.source schema).Keeps (Stands tx table) I where
  init _ hs := ⟨⟨hs.1.tx, hs.1.table, fun hover => nomatch hover⟩, hs.2⟩
  next _ hs := next_keeps hfetch hs

/-! ## Nodes over others -/

section Nodes

variable {C : σ → Prop} {D : τ → Prop} {I : Pool → Prop}

section Join

/-- What is known of the cursor of a join whose inputs stand as these say. -/
def Join.Stands (C : σ → Prop) (D : τ → Prop) (c : JoinCursor σ τ) : Prop := C c.left ∧ D c.right

theorem Join.onLeft_keeps {m : Step (σ × Pool) α} (hm : ∀ s, Known C I s → m.Ends s fun _ t => Known C I t)
    {s : JoinCursor σ τ × Pool} (hs : Known (Stands C D) I s) :
    (onLeft m).Ends s fun _ t => Known (Stands C D) I t :=
  onPart_keeps (fun _ h => h.1) (fun _ _ h hpart => ⟨hpart, h.2⟩) hm s hs

theorem Join.onRight_keeps {m : Step (τ × Pool) α} (hm : ∀ s, Known D I s → m.Ends s fun _ t => Known D I t)
    {s : JoinCursor σ τ × Pool} (hs : Known (Stands C D) I s) :
    (onRight m).Ends s fun _ t => Known (Stands C D) I t :=
  onPart_keeps (fun _ h => h.2) (fun _ _ h hpart => ⟨h.1, hpart⟩) hm s hs

variable {left : Source σ} {right : Source τ} (hleft : left.Keeps C I) (hright : right.Keeps D I)
  {s : JoinCursor σ τ × Pool} (hs : Known (Join.Stands C D) I s)

include hleft hright hs

theorem Join.takeLeft_keeps : (takeLeft left right).Ends s fun _ t => Known (Stands C D) I t := by
  have hset : setCurrent none s = (.ok (), ({ s.1 with current := none }, s.2)) := rfl
  unfold takeLeft
  refine Step.Ends.of_ok (Step.read_run _ s) (Step.Ends.of_ok hset ?_)
  split
  · exact hs
  · refine Step.Ends.bind (onLeft_keeps hleft.next hs) ?_ (fun _ _ ht => ht)
    rintro (_ | row) t ht
    · exact ht
    · exact Step.Ends.bind (onRight_keeps hright.init ht) (fun _ _ ht => ht) (fun _ _ ht => ht)

omit hleft in
theorem Join.nextMatch_keeps (on : Predicate) (schema : Schema) (row : Row) (calls : Nat) :
    (nextMatch on schema right row calls).Ends s fun _ t => Known (Stands C D) I t := by
  induction calls generalizing s with
  | zero => exact hs
  | succ calls ih =>
    unfold nextMatch
    refine Step.Ends.bind (onRight_keeps hright.next hs) ?_ (fun _ _ ht => ht)
    rintro (_ | other) t ht
    · exact ht
    · dsimp only
      split
      · exact Step.Ends.ofExcept (fun _ _ => ht) (fun _ _ => ht)
      · exact ih ht

theorem Join.nextPair_keeps (on : Predicate) (rows : Nat) :
    (nextPair on left right rows).Ends s fun _ t => Known (Stands C D) I t := by
  induction rows generalizing s with
  | zero => exact hs
  | succ rows ih =>
    unfold nextPair
    refine Step.Ends.bind (takeLeft_keeps hleft hright hs) ?_ (fun _ _ ht => ht)
    rintro (_ | row) t ht
    · exact ht
    · refine Step.Ends.of_ok (Step.state_run t) ?_
      refine Step.Ends.bind (nextMatch_keeps hright ht on _ row _) ?_ (fun _ _ ht => ht)
      rintro (_ | joined) t' ht'
      · exact ih ht'
      · exact ht'

omit hs in
theorem Join.keeps (on : Predicate) : (source on left right).Keeps (Stands C D) I where
  init _ hs := Step.Ends.bind (onLeft_keeps hleft.init hs) (fun _ _ ht => ht) (fun _ _ ht => ht)
  next s hs := Step.Ends.of_ok (Step.state_run s)
    (Step.Ends.check (fun _ => nextPair_keeps hleft hright hs on _) (fun _ => hs))

end Join

theorem Aggregate.onChild_keeps {m : Step (σ × Pool) α} (hm : ∀ s, Known C I s → m.Ends s fun _ t => Known C I t)
    {s : AggregateCursor σ × Pool} (hs : Known (fun c => C c.child) I s) :
    (onChild m).Ends s fun _ t => Known (fun c => C c.child) I t := by
  refine onPart_keeps ?_ ?_ hm s hs
  · exact fun _ h => h
  · exact fun _ _ _ hpart => hpart

theorem Aggregate.keeps (a : Aggregate) {child : Source σ} (hchild : child.Keeps C I) :
    (a.source child).Keeps (fun c => C c.child) I := by
  constructor
  · intro s hs
    refine Step.Ends.bind (onChild_keeps hchild.init hs) ?_ (fun _ _ ht => ht)
    rintro ⟨⟩ t ht
    refine Step.Ends.bind (onChild_keeps (fun _ => hchild.drain) ht) ?_ (fun _ _ ht => ht)
    intro input t' ht'
    exact Step.Ends.ofExcept (fun _ _ => ht') (fun _ _ => ht')
  · intro s hs
    refine Step.Ends.of_ok (Step.read_run _ s) ?_
    exact Step.Ends.check (fun _ => hs) (fun _ => hs)

theorem InsertTarget.onChild_keeps {m : Step (σ × Pool) α}
    (hm : ∀ s, Known C I s → m.Ends s fun _ t => Known C I t)
    {s : InsertCursor σ × Pool} (hs : Known (fun c => C c.child) I s) :
    (onChild m).Ends s fun _ t => Known (fun c => C c.child) I t := by
  refine onPart_keeps ?_ ?_ hm s hs
  · exact fun _ h => h
  · exact fun _ _ _ hpart => hpart

theorem InsertTarget.insertRow_keeps (target : InsertTarget) (row : Row)
    (hinsert : ∀ row p, row.Typed → I p → I (Pool.insert target.tx target.table row p).2) {p : Pool} (hp : I p) :
    (target.insertRow row).Ends p fun _ q => I q := by
  unfold InsertTarget.insertRow
  refine Step.Ends.ofExcept (fun row' hrow => ?_) (fun _ _ => hp)
  have typed : row'.Typed := (Row.typed_of_ofFields hrow).1
  exact Step.Ends.bind (P := fun _ q => I q) (hinsert row' p typed hp) (fun _ _ hq => hq) (fun _ _ hq => hq)

theorem InsertTarget.insertAll_keeps (target : InsertTarget) {child : Source σ} (hchild : child.Keeps C I)
    (hinsert : ∀ row p, row.Typed → I p → I (Pool.insert target.tx target.table row p).2) (calls count : Nat)
    {s : InsertCursor σ × Pool} (hs : Known (fun c => C c.child) I s) :
    (target.insertAll child calls count).Ends s fun _ t => Known (fun c => C c.child) I t := by
  induction calls generalizing s count with
  | zero => exact hs
  | succ calls ih =>
    unfold InsertTarget.insertAll
    refine Step.Ends.bind (onChild_keeps hchild.next hs) ?_ (fun _ _ ht => ht)
    rintro (_ | row) t ht
    · exact ht
    · have hrow : (Source.onPool (target.insertRow row)).Ends t
          fun _ t => Known (fun c => C c.child) I t :=
        Step.Ends.focus ((target.insertRow_keeps row hinsert ht.2).mono fun _ _ hq => ⟨ht.1, hq⟩)
      exact Step.Ends.bind hrow (fun _ _ ht' => ih _ ht') (fun _ _ ht' => ht')

theorem InsertTarget.keeps (target : InsertTarget) {child : Source σ} (hchild : child.Keeps C I)
    (hinsert : ∀ row p, row.Typed → I p → I (Pool.insert target.tx target.table row p).2) :
    (target.source child).Keeps (fun c => C c.child) I := by
  constructor
  · intro s hs
    exact Step.Ends.bind (onChild_keeps hchild.init hs) (fun _ _ ht => ht) (fun _ _ ht => ht)
  · intro s hs
    change (target.next child).Ends s _
    unfold InsertTarget.next
    refine Step.Ends.of_ok (Step.state_run s) (Step.Ends.check (fun _ => ?_) (fun _ => hs))
    split
    · exact hs
    · refine Step.Ends.bind (target.insertAll_keeps hchild hinsert _ _ hs) ?_ (fun _ _ ht => ht)
      intro count t ht
      refine Step.Ends.of_ok (Step.update_run _ t) ?_
      exact Step.Ends.ofExcept (fun _ _ => ht) (fun _ _ => ht)

end Nodes

/-! ## Trees -/

namespace Plan

/-- The transactions for which a tree works. -/
def Acts : Plan → TxId → Prop
  | replay _, _ => False
  | scan tx _ _, u => u = tx
  | join _ left right, u => left.Acts u ∨ right.Acts u
  | aggregate _ child, u => child.Acts u
  | insert target child, u => u = target.tx ∨ child.Acts u

/-- The transactions and the tables for which, and into which, the inserts of a tree put rows. -/
def PutsInto : Plan → TxId → TableId → Prop
  | replay _, _, _ => False
  | scan _ _ _, _, _ => False
  | join _ left right, u, table => left.PutsInto u table ∨ right.PutsInto u table
  | aggregate _ child, u, table => child.PutsInto u table
  | insert target child, u, table => (u = target.tx ∧ table = target.table) ∨ child.PutsInto u table

theorem acts_of_putsInto {p : Plan} {u : TxId} {table : TableId} (h : p.PutsInto u table) : p.Acts u := by
  induction p with
  | replay r => exact h.elim
  | scan tx of schema => exact h.elim
  | join on left right ihl ihr => exact h.imp ihl ihr
  | aggregate a child ih => exact ih h
  | insert target child ih => exact h.imp And.left ih

/-- The scans of the cursor are those of the tree. -/
def Stands : (p : Plan) → p.Cursor → Prop
  | replay _, _ => True
  | scan tx table _, c => Scan.Stands tx table c
  | join _ left right, c => Join.Stands left.Stands right.Stands c
  | aggregate _ child, c => child.Stands c.child
  | insert _ child, c => child.Stands c.child

theorem stands_fresh (p : Plan) : p.Stands p.fresh := by
  induction p with
  | replay r => trivial
  | scan tx table schema => exact ⟨rfl, rfl, fun hover => nomatch hover⟩
  | join on left right ihl ihr => exact ⟨ihl, ihr⟩
  | aggregate a child ih => exact ih
  | insert target child ih => exact ih

theorem keeps (p : Plan) {I : Pool → Prop}
    (hfetch : ∀ tx, p.Acts tx → ∀ id q, I q → I (Pool.fetch tx id .shared q).2)
    (hinsert : ∀ tx table, p.PutsInto tx table → ∀ row q, row.Typed → I q → I (Pool.insert tx table row q).2) :
    p.source.Keeps p.Stands I := by
  induction p with
  | replay r => exact r.keeps I
  | scan tx table schema => exact Scan.keeps schema (hfetch tx rfl)
  | join on left right ihl ihr =>
    exact Join.keeps (ihl (fun tx h => hfetch tx (.inl h)) (fun tx table h => hinsert tx table (.inl h)))
      (ihr (fun tx h => hfetch tx (.inr h)) (fun tx table h => hinsert tx table (.inr h))) on
  | aggregate a child ih => exact a.keeps (ih hfetch hinsert)
  | insert target child ih =>
    exact target.keeps (ih (fun tx h => hfetch tx (.inr h)) (fun tx table h => hinsert tx table (.inr h)))
      (hinsert target.tx target.table (.inl ⟨rfl, rfl⟩))

end Plan

namespace Operator

/-- What a call, or some calls, leave of an operator and of the pool. -/
structure Kept (o : Operator) (I : Pool → Prop) (s : Operator × Pool) : Prop where
  plan : s.1.plan = o.plan
  stands : s.1.plan.Stands s.1.cursor
  pool : I s.2

variable {o : Operator} {I : Pool → Prop}

theorem run_keeps {m : Step (o.plan.Cursor × Pool) α} {p : Pool}
    (hm : m.Ends (o.cursor, p) fun _ t => Known o.plan.Stands I t) : o.Kept I (o.run m p).2 :=
  ⟨rfl, hm.1, hm.2⟩

theorem call_keeps (h : o.plan.source.Keeps o.plan.Stands I) (hstands : o.plan.Stands o.cursor)
    {p : Pool} (hp : I p) (c : OperatorCall) : o.Kept I (o.call p c).2 := by
  cases c with
  | init => exact run_keeps (h.init _ ⟨hstands, hp⟩)
  | next => exact run_keeps (h.next _ ⟨hstands, hp⟩)
  | collect => exact run_keeps (h.collect ⟨hstands, hp⟩)
  | schema => exact ⟨rfl, hstands, hp⟩

theorem callAll_keeps (calls : List OperatorCall) {o : Operator}
    (h : o.plan.source.Keeps o.plan.Stands I) (hstands : o.plan.Stands o.cursor) {p : Pool} (hp : I p) :
    o.Kept I (callAll calls o p).2 := by
  induction calls generalizing o p with
  | nil => exact ⟨rfl, hstands, hp⟩
  | cons c rest ih =>
    have hcall := call_keeps h hstands hp c
    have hrest := ih (hcall.plan ▸ h) hcall.stands hcall.pool
    exact ⟨hrest.plan.trans hcall.plan, hrest.stands, hrest.pool⟩

end Operator

end PageStore
