-- Transactions with a body. To carry one out is to carry out its steps, one after the other
-- up to the first that fails, and then to end it one way or the other. So what is kept by
-- all actions that an action consists of is kept by the action.
import PageStore.Proofs.Session.Effects

namespace PageStore.Session

open Pool

mutual

/-- The actions that may be carried out in the course of this one. -/
def parts : Action → List Action
  | .transaction tx steps _ => partsOfAll steps ++ [.commit tx, .abort tx]
  | a => [a]

def partsOfAll : List Action → List Action
  | [] => []
  | a :: rest => parts a ++ partsOfAll rest

end

/-- The action leads from sessions of which `I` holds only to such sessions. -/
def Keeping (I : Session → Prop) (a : Action) : Prop := ∀ s, I s → (perform a).Ends s fun _ t => I t

/-- A transaction ends on the pool that is open. -/
theorem onOpening_last {α : Type} (m : Step Pool α) (s : Session) :
    onOpening s.opening m s = onPool m s := by
  have hpool : s.poolOf s.opening = s.pool := by
    simp [poolOf, opening]
  have hset : ∀ pool, s.setPoolOf s.opening pool = { s with pool } := by
    simp [setPoolOf]
  rcases hrun : m s.pool with ⟨r, pool⟩
  rw [onPool, Step.focus_run hrun, onOpening, Step.focus_run (by rw [hpool, hrun]), hset]

/-- What is said here is said of sessions whose directory was opened once, whatever pages the client keeps. -/
structure Plain (I : Session → Prop) : Prop where
  alone : ∀ s, I s → s.former = []
  handles : ∀ s handles, I s → I { s with handles }

section Parts

variable {I : Session → Prop} (plain : Plain I)

include plain

/-- The end of a transaction by the pool with which it began, which is still open. -/
theorem onOpening_keeps {m : Step Pool Unit} {a : Action} (ha : perform a = onPool m >>= fun _ => pure .nothing)
    (kept : Keeping I a) {s t : Session} (hs : I s) (ht : I t) :
    (onOpening s.opening m).Ends t fun _ t' => I t' := by
  have hopening : s.opening = t.opening := by
    simp only [opening, plain.alone s hs, plain.alone t ht]
  rw [hopening, Step.Ends, onOpening_last]
  apply Step.Ends.of_map (f := fun _ => Answer.nothing)
  rw [← ha]
  exact kept t ht

theorem keeping_transaction {tx : TxId} {steps : List Action} (fail : Bool)
    (hsteps : ∀ s, I s → (performUntilError steps).Ends s fun _ t => I t)
    (commit : Keeping I (.commit tx)) (abort : Keeping I (.abort tx)) :
    Keeping I (.transaction tx steps fail) := by
  intro s hs
  simp only [perform]
  refine Step.Ends.of_ok (Step.state_run s) ?_
  refine Step.Ends.bind (hsteps s hs) ?_ (fun _ _ h => h)
  intro results t ht
  refine Step.Ends.bind_attempt (P := fun _ t' => I t') ?_ (fun _ _ h => h)
  apply Step.Ends.guarded
  · intro t' ht'
    exact onOpening_keeps plain (by simp only [perform]) commit hs ht'
  · intro t' ht'
    exact onOpening_keeps plain (by simp only [perform]) abort hs ht'
  · exact ht

mutual

theorem keeping_of_parts (a : Action) (h : ∀ part ∈ parts a, Keeping I part) : Keeping I a := by
  cases a
  case transaction tx steps fail =>
    simp only [parts, List.mem_append, List.mem_cons, List.not_mem_nil, or_false] at h
    apply keeping_transaction plain fail
    · exact keeping_of_partsOfAll steps fun part hpart => h part (.inl hpart)
    · exact h _ (.inr (.inl rfl))
    · exact h _ (.inr (.inr rfl))
  all_goals exact h _ (List.mem_singleton_self _)

theorem keeping_of_partsOfAll (actions : List Action) (h : ∀ part ∈ partsOfAll actions, Keeping I part) :
    ∀ s, I s → (performUntilError actions).Ends s fun _ t => I t := by
  intro s hs
  match actions with
  | [] =>
    simp only [performUntilError]
    exact hs
  | a :: rest =>
    simp only [partsOfAll, List.mem_append] at h
    simp only [performUntilError]
    refine Step.Ends.bind_attempt (keeping_of_parts a (fun part hpart => h part (.inl hpart)) s hs) ?_
    intro r t ht
    refine Step.Ends.of_ok (Step.update_run _ t) ?_
    have ht := plain.handles t (t.handles.mapValues (follow t.pool)) ht
    cases r with
    | error e => exact ht
    | ok answer =>
      have hrest := keeping_of_partsOfAll rest (fun part hpart => h part (.inr hpart)) _ ht
      exact Step.Ends.bind hrest (fun _ _ h => h) (fun _ _ h => h)

end

theorem run_of_parts {a : Action} (h : ∀ part ∈ parts a, Keeping I part) {s : Session} (hs : I s) :
    I (run a s).2 :=
  plain.handles _ _ (keeping_of_parts plain a h s hs)

end Parts

end PageStore.Session
