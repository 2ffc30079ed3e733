-- Operations on a state that may fail. What an operation did to the state before
-- it failed stays done: nothing is rolled back by an error alone.
import PageStore.Error

namespace PageStore

/-- An operation on a state `σ`: an answer or an error, and in both cases the state after it. -/
def Step (σ α : Type) : Type := σ → Except Error α × σ

namespace Step

variable {σ τ α β : Type}

/-! ## Building blocks -/

def done (a : α) : Step σ α := fun s => (.ok a, s)

def fail (e : Error) : Step σ α := fun s => (.error e, s)

/-- `first`, then `next` on its answer; an error of `first` ends both. -/
def andThen (first : Step σ α) (next : α → Step σ β) : Step σ β := fun s =>
  match first s with
  | (.ok a, s') => next a s'
  | (.error e, s') => (.error e, s')

instance : Monad (Step σ) where
  pure := done
  bind := andThen

def state : Step σ σ := fun s => (.ok s, s)

def setState (s : σ) : Step σ Unit := fun _ => (.ok (), s)

def update (f : σ → σ) : Step σ Unit := fun s => (.ok (), f s)

/-- A part of the state, unchanged. -/
def read (f : σ → α) : Step σ α := fun s => (.ok (f s), s)

/-- An outcome that does not touch the state. -/
def ofExcept (r : Except Error α) : Step σ α := fun s => (r, s)

def ofOption (e : Error) : Option α → Step σ α
  | some a => done a
  | none => fail e

def check (ok : Bool) (e : Error) : Step σ Unit := if ok then done () else fail e

/-- Never fails: an error becomes the answer. -/
def attempt (m : Step σ α) : Step σ (Except Error α) := fun s =>
  let (r, s') := m s
  (.ok r, s')

/-- `body`, and then `commit` if it succeeds. If it fails `abort` is tried, and the error of `body`
is the answer whatever becomes of that. -/
def guarded (commit abort : Step σ Unit) (body : Step σ α) : Step σ α :=
  andThen (attempt body) fun
    | .ok a => andThen commit fun _ => done a
    | .error e => andThen (attempt abort) fun _ => fail e

/-- An operation on a part of the state, carried out on the whole. -/
def focus (get : τ → σ) (set : τ → σ → τ) (m : Step σ α) : Step τ α := fun t =>
  let (r, s) := m (get t)
  (r, set t s)

/-- Runs one operation after the other and gives all answers. -/
def each (f : α → Step σ β) : List α → Step σ (List β)
  | [] => done []
  | a :: rest => andThen (f a) fun b => andThen (each f rest) fun bs => done (b :: bs)

/-- Calls `next` until it gives nothing, and gives all that came before. Whoever asks says how many
calls are enough; one more ends in an error. -/
def collect (next : Step σ (Option α)) : Nat → Step σ (List α)
  | 0 => fail (.operator .endless)
  | calls + 1 => andThen next fun
    | none => done []
    | some a => andThen (collect next calls) fun rest => done (a :: rest)

/-! ## How they run -/

@[simp] theorem pure_run (a : α) (s : σ) : (pure a : Step σ α) s = (.ok a, s) := rfl

@[simp] theorem done_run (a : α) (s : σ) : (done a : Step σ α) s = (.ok a, s) := rfl

@[simp] theorem fail_run (e : Error) (s : σ) : (fail e : Step σ α) s = (.error e, s) := rfl

@[simp] theorem state_run (s : σ) : (state : Step σ σ) s = (.ok s, s) := rfl

@[simp] theorem setState_run (s t : σ) : setState s t = (.ok (), s) := rfl

@[simp] theorem update_run (f : σ → σ) (s : σ) : update f s = (.ok (), f s) := rfl

@[simp] theorem read_run (f : σ → α) (s : σ) : read f s = (.ok (f s), s) := rfl

@[simp] theorem ofExcept_run (r : Except Error α) (s : σ) : ofExcept r s = (r, s) := rfl

theorem bind_run (m : Step σ α) (f : α → Step σ β) (s : σ) :
    (m >>= f) s = match m s with
      | (.ok a, s') => f a s'
      | (.error e, s') => (.error e, s') := rfl

theorem bind_of_ok {m : Step σ α} {s s' : σ} {a : α} (h : m s = (.ok a, s')) (f : α → Step σ β) :
    (m >>= f) s = f a s' := by
  rw [bind_run, h]

theorem bind_of_error {m : Step σ α} {s s' : σ} {e : Error} (h : m s = (.error e, s'))
    (f : α → Step σ β) : (m >>= f) s = (.error e, s') := by
  rw [bind_run, h]

theorem attempt_run {m : Step σ α} {s s' : σ} {r : Except Error α} (h : m s = (r, s')) :
    m.attempt s = (.ok r, s') := by
  rw [attempt, h]

theorem focus_run {get : τ → σ} {set : τ → σ → τ} {m : Step σ α} {t : τ} {r : Except Error α} {s : σ}
    (h : m (get t) = (r, s)) : focus get set m t = (r, set t s) := by
  rw [focus, h]

end Step

end PageStore
