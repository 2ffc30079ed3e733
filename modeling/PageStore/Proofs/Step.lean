-- How to reason about operations that may fail: where one operation ends, and
-- how two operations that run side by side come to the same answer.
import PageStore.Step

namespace PageStore.Step

variable {σ τ α β : Type}

/-! ## Outcomes -/

section Outcomes

variable {ε : Type} {f : α → Except ε β} {l : List α}

theorem exists_of_bind {r : Except ε α} {b : β} (h : r >>= f = .ok b) : ∃ a, r = .ok a ∧ f a = .ok b := by
  cases r with
  | ok a => exact ⟨a, rfl, h⟩
  | error e => cases h

theorem mapM_congr {g : α → Except ε β} (h : ∀ a ∈ l, f a = g a) : l.mapM f = l.mapM g := by
  induction l with
  | nil => rfl
  | cons a l ih =>
    rw [List.mapM_cons, List.mapM_cons, h a List.mem_cons_self, ih fun b hb => h b (List.mem_cons_of_mem _ hb)]

theorem mapM_eq_ok {g : α → β} (h : ∀ a ∈ l, f a = .ok (g a)) : l.mapM f = .ok (l.map g) := by
  induction l with
  | nil => rfl
  | cons a l ih =>
    rw [List.mapM_cons, h a List.mem_cons_self, ih fun b hb => h b (List.mem_cons_of_mem _ hb)]
    rfl

/-- The first element that fails decides. -/
theorem mapM_eq_error {front rest : List α} {g : α → β} {a : α} {e : ε} (h : ∀ b ∈ front, f b = .ok (g b))
    (ha : f a = .error e) : (front ++ a :: rest).mapM f = .error e := by
  induction front with
  | nil =>
    rw [List.nil_append, List.mapM_cons, ha]
    rfl
  | cons b front ih =>
    rw [List.cons_append, List.mapM_cons, h b List.mem_cons_self, ih fun c hc => h c (List.mem_cons_of_mem _ hc)]
    rfl

theorem exists_of_mapM {bs : List β} (h : l.mapM f = .ok bs) : ∀ b ∈ bs, ∃ a ∈ l, f a = .ok b := by
  induction l generalizing bs with
  | nil =>
    cases h
    exact fun b hb => nomatch hb
  | cons a l ih =>
    rw [List.mapM_cons] at h
    cases ha : f a with
    | error e =>
      rw [ha] at h
      cases h
    | ok b =>
      cases hl : l.mapM f with
      | error e =>
        rw [ha, hl] at h
        cases h
      | ok rest =>
        rw [ha, hl] at h
        cases h
        refine List.forall_mem_cons.mpr ⟨⟨a, List.mem_cons_self, ha⟩, fun c hc => ?_⟩
        obtain ⟨x, hx, hfx⟩ := ih hl c hc
        exact ⟨x, List.mem_cons_of_mem _ hx, hfx⟩

end Outcomes

/-! ## One run -/

/-- Answers that cannot be compared are, by what is known of them if they are no errors. -/
theorem eq_ok_of_toOption {r : Except Error α} {a : α} (h : r.toOption = some a) : r = .ok a := by
  cases r with
  | ok b => exact congrArg Except.ok (Option.some.inj h)
  | error e => cases h

theorem exists_run {m : Step σ α} {s : σ} {r : Except Error α} (h : (m s).1 = r) : ∃ s', m s = (r, s') :=
  ⟨(m s).2, Prod.ext h rfl⟩

/-- `Q` holds of the answer and of the state after it. -/
def Ends (m : Step σ α) (s : σ) (Q : Except Error α → σ → Prop) : Prop := Q (m s).1 (m s).2

theorem Ends.mono {m : Step σ α} {s : σ} {P Q : Except Error α → σ → Prop} (h : m.Ends s P)
    (hpq : ∀ r s', P r s' → Q r s') : m.Ends s Q := hpq _ _ h

theorem Ends.and {m : Step σ α} {s : σ} {P Q : Except Error α → σ → Prop} (h : m.Ends s P)
    (h' : m.Ends s Q) : m.Ends s fun r s' => P r s' ∧ Q r s' := ⟨h, h'⟩

theorem Ends.bind {m : Step σ α} {f : α → Step σ β} {s : σ} {P : Except Error α → σ → Prop}
    {Q : Except Error β → σ → Prop} (hm : m.Ends s P)
    (hok : ∀ a s', P (.ok a) s' → (f a).Ends s' Q)
    (herror : ∀ e s', P (.error e) s' → Q (.error e) s') : (m >>= f).Ends s Q := by
  unfold Ends at hm ⊢
  rw [bind_run]
  rcases h : m s with ⟨r, s'⟩
  rw [h] at hm
  cases r with
  | ok a => exact hok a s' hm
  | error e => exact herror e s' hm

/-- The first operation is known to succeed. -/
theorem Ends.of_ok {m : Step σ α} {f : α → Step σ β} {s s' : σ} {a : α}
    {Q : Except Error β → σ → Prop} (h : m s = (.ok a, s')) (hf : (f a).Ends s' Q) :
    (m >>= f).Ends s Q := by
  unfold Ends at hf ⊢
  rw [bind_of_ok h]
  exact hf

/-- The first operation is known to fail. -/
theorem Ends.of_error {m : Step σ α} {f : α → Step σ β} {s s' : σ} {e : Error}
    {Q : Except Error β → σ → Prop} (h : m s = (.error e, s')) (hq : Q (.error e) s') :
    (m >>= f).Ends s Q := by
  unfold Ends
  rw [bind_of_error h]
  exact hq

/-- After an attempt the rest runs, whatever the attempt came to. -/
theorem Ends.bind_attempt {m : Step σ α} {f : Except Error α → Step σ β} {s : σ}
    {P : Except Error α → σ → Prop} {Q : Except Error β → σ → Prop} (hm : m.Ends s P)
    (hf : ∀ r s', P r s' → (f r).Ends s' Q) : (m.attempt >>= f).Ends s Q := hf _ _ hm

/-- What is made of the answer does not change the state. -/
theorem Ends.of_map {m : Step σ α} {f : α → β} {s : σ} {I : σ → Prop}
    (h : (m >>= fun a => pure (f a)).Ends s fun _ s' => I s') : m.Ends s fun _ s' => I s' := by
  unfold Ends at h ⊢
  rw [bind_run] at h
  rcases hm : m s with ⟨r, s'⟩
  rw [hm] at h
  cases r with
  | ok a => exact h
  | error e => exact h

theorem Ends.focus {get : τ → σ} {set : τ → σ → τ} {m : Step σ α} {t : τ}
    {Q : Except Error α → τ → Prop} (h : m.Ends (get t) fun r s => Q r (set t s)) :
    (Step.focus get set m).Ends t Q := h

/-- A check of the state before the rest: what fails there changes nothing. -/
theorem Ends.check {ok : Bool} {e : Error} {f : Unit → Step σ β} {s : σ}
    {Q : Except Error β → σ → Prop} (hok : ok = true → (f ()).Ends s Q)
    (herror : ok = false → Q (.error e) s) : (Step.check ok e >>= f).Ends s Q := by
  cases ok with
  | true => exact Ends.of_ok rfl (hok rfl)
  | false => exact Ends.of_error rfl (herror rfl)

theorem Ends.ofExcept {r : Except Error α} {f : α → Step σ β} {s : σ}
    {Q : Except Error β → σ → Prop} (hok : ∀ a, r = .ok a → (f a).Ends s Q)
    (herror : ∀ e, r = .error e → Q (.error e) s) : (Step.ofExcept r >>= f).Ends s Q := by
  cases r with
  | ok a => exact Ends.of_ok rfl (hok a rfl)
  | error e => exact Ends.of_error rfl (herror e rfl)

theorem Ends.ofOption {e : Error} {o : Option α} {f : α → Step σ β} {s : σ}
    {Q : Except Error β → σ → Prop} (hok : ∀ a, o = some a → (f a).Ends s Q)
    (herror : o = none → Q (.error e) s) : (Step.ofOption e o >>= f).Ends s Q := by
  cases o with
  | some a => exact Ends.of_ok rfl (hok a rfl)
  | none => exact Ends.of_error rfl (herror rfl)

/-- A list of operations of which each keeps `I`. -/
theorem Ends.each {f : α → Step σ β} {I : σ → Prop} {l : List α}
    (hf : ∀ a ∈ l, ∀ s, I s → (f a).Ends s fun _ s' => I s') {s : σ} (hs : I s) :
    (Step.each f l).Ends s fun _ s' => I s' := by
  induction l generalizing s with
  | nil => exact hs
  | cons a rest ih =>
    refine Ends.bind (hf a (List.mem_cons_self ..) s hs) ?_ (fun _ _ h => h)
    intro b s' hs'
    exact Ends.bind (ih (fun x hx => hf x (List.mem_cons_of_mem _ hx)) hs') (fun _ _ h => h)
      (fun _ _ h => h)

/-- A list of operations of which each carries on what is known of the answers before it. -/
theorem Ends.each_answers {f : α → Step σ β} {P : Except Error (List β) → σ → Prop} {l : List α}
    (hf : ∀ a ∈ l, ∀ bs s, P (.ok bs) s → (f a).Ends s fun r t => P (r.map fun b => bs ++ [b]) t)
    {bs : List β} {s : σ} (hs : P (.ok bs) s) :
    (Step.each f l).Ends s fun r t => P (r.map fun others => bs ++ others) t := by
  induction l generalizing bs s with
  | nil =>
    change P (.ok (bs ++ [])) s
    rwa [List.append_nil]
  | cons a rest ih =>
    refine Ends.bind (hf a List.mem_cons_self bs s hs) ?_ (fun _ _ h => h)
    intro b t ht
    refine Ends.bind (ih (fun x hx => hf x (List.mem_cons_of_mem _ hx)) ht) ?_ (fun _ _ h => h)
    intro others t' ht'
    change P (.ok (bs ++ [b] ++ others)) t' at ht'
    change P (.ok (bs ++ b :: others)) t'
    rwa [List.append_cons]

/-- Calls that go on until there is nothing more, each of which keeps `I`. -/
theorem Ends.collect {next : Step σ (Option α)} {I : σ → Prop}
    (hnext : ∀ s, I s → next.Ends s fun _ s' => I s') {calls : Nat} {s : σ} (hs : I s) :
    (Step.collect next calls).Ends s fun _ s' => I s' := by
  induction calls generalizing s with
  | zero => exact hs
  | succ calls ih =>
    refine Ends.bind (hnext s hs) ?_ (fun _ _ h => h)
    rintro (_ | a) s' hs'
    · exact hs'
    · exact Ends.bind (ih hs') (fun _ _ h => h) (fun _ _ h => h)

/-- A body, and one of two ends, all of which keep `I`. -/
theorem Ends.guarded {commit abort : Step σ Unit} {body : Step σ α} {I : σ → Prop}
    (hcommit : ∀ s, I s → commit.Ends s fun _ s' => I s')
    (habort : ∀ s, I s → abort.Ends s fun _ s' => I s') {s : σ} (hbody : body.Ends s fun _ s' => I s') :
    (Step.guarded commit abort body).Ends s fun _ s' => I s' := by
  refine Ends.bind_attempt hbody ?_
  rintro (e | a) s' hs'
  · exact Ends.bind_attempt (habort s' hs') (fun _ _ h => h)
  · exact Ends.bind (hcommit s' hs') (fun _ _ h => h) (fun _ _ h => h)

/-! ## Two runs -/

/-- A page that was wanted had no room in memory. -/
def full : Except Error α → Bool
  | .error (.poolFull _) => true
  | _ => false

theorem full_iff {r : Except Error α} : full r ↔ ∃ capacity, r = .error (.poolFull capacity) := by
  unfold full
  split
  · simp
  · rename_i hother
    simpa using hother

/-- Two operations that both have room give the same answer, and `R` holds of it and of the states
after it. -/
def Agree (m : Step σ α) (s : σ) (m' : Step σ α) (s' : σ) (R : Except Error α → σ → σ → Prop) : Prop :=
  full (m s).1 ∨ full (m' s').1 ∨ (m s).1 = (m' s').1 ∧ R (m s).1 (m s).2 (m' s').2

variable {s s' : σ} {R : Except Error α → σ → σ → Prop} {Q : Except Error β → σ → σ → Prop}

theorem Agree.mono {m m' : Step σ α} {P : Except Error α → σ → σ → Prop} (h : Agree m s m' s' P)
    (hpr : ∀ r t t', P r t t' → R r t t') : Agree m s m' s' R := by
  rcases h with hfull | hfull | ⟨hsame, hp⟩
  · exact .inl hfull
  · exact .inr (.inl hfull)
  · exact .inr (.inr ⟨hsame, hpr _ _ _ hp⟩)

/-- What is known of where the first of them ends holds beside. -/
theorem Agree.and_ends {m m' : Step σ α} {P : Except Error α → σ → Prop} (h : Agree m s m' s' R)
    (hp : m.Ends s P) : Agree m s m' s' fun r t t' => R r t t' ∧ P r t := by
  rcases h with hfull | hfull | ⟨hsame, hr⟩
  · exact .inl hfull
  · exact .inr (.inl hfull)
  · exact .inr (.inr ⟨hsame, hr, hp⟩)

/-- What is known of where each operation ends may settle that they agree. -/
theorem Agree.of_ends {m m' : Step σ α} {P P' : Except Error α → σ → Prop} (h : m.Ends s P)
    (h' : m'.Ends s' P')
    (hr : ∀ r t r' t', P r t → P' r' t' → full r ∨ full r' ∨ r = r' ∧ R r t t') :
    Agree m s m' s' R := hr _ _ _ _ h h'

theorem Agree.of_run {m m' : Step σ α} {r : Except Error α} {t t' : σ} (h : m s = (r, t))
    (h' : m' s' = (r, t')) (hr : R r t t') : Agree m s m' s' R := by
  unfold Agree
  rw [h, h']
  exact .inr (.inr ⟨rfl, hr⟩)

theorem full_bind {m : Step σ α} (h : full (m s).1) (f : α → Step σ β) : full ((m >>= f) s).1 := by
  obtain ⟨capacity, hfull⟩ := full_iff.mp h
  rw [bind_of_error (Prod.ext hfull rfl)]
  rfl

theorem Agree.bind {m m' : Step σ α} {f f' : α → Step σ β} (h : Agree m s m' s' R)
    (hok : ∀ a t t', R (.ok a) t t' → Agree (f a) t (f' a) t' Q)
    (herror : ∀ e t t', R (.error e) t t' → Q (.error e) t t') :
    Agree (m >>= f) s (m' >>= f') s' Q := by
  rcases h with hfull | hfull | ⟨hsame, hr⟩
  · exact .inl (full_bind hfull f)
  · exact .inr (.inl (full_bind hfull f'))
  · rcases hm : m s with ⟨r, t⟩
    rcases hm' : m' s' with ⟨r', t'⟩
    rw [hm, hm'] at hsame hr
    obtain rfl : r = r' := hsame
    cases r with
    | ok a =>
      unfold Agree
      rw [bind_of_ok hm, bind_of_ok hm']
      exact hok a t t' hr
    | error e => exact Agree.of_run (bind_of_error hm f) (bind_of_error hm' f') (herror e t t' hr)

/-- The first operations are known to succeed, both with the same answer. -/
theorem Agree.of_ok {m m' : Step σ α} {f f' : α → Step σ β} {a : α} {t t' : σ} (h : m s = (.ok a, t))
    (h' : m' s' = (.ok a, t')) (hf : Agree (f a) t (f' a) t' Q) :
    Agree (m >>= f) s (m' >>= f') s' Q := by
  unfold Agree at hf ⊢
  rw [bind_of_ok h, bind_of_ok h']
  exact hf

/-- The rest may read the state, which need not be the same one. -/
theorem Agree.state {f f' : σ → Step σ β} (h : Agree (f s) s (f' s') s' Q) :
    Agree (Step.state >>= f) s (Step.state >>= f') s' Q := h

theorem Agree.ofExcept {r : Except Error α} {f f' : α → Step σ β}
    (hok : ∀ a, r = .ok a → Agree (f a) s (f' a) s' Q) (herror : ∀ e, r = .error e → Q (.error e) s s') :
    Agree (Step.ofExcept r >>= f) s (Step.ofExcept r >>= f') s' Q := by
  cases r with
  | ok a => exact Agree.of_ok rfl rfl (hok a rfl)
  | error e => exact Agree.of_run rfl rfl (herror e rfl)

theorem Agree.ofOption {e : Error} {o : Option α} {f f' : α → Step σ β}
    (hok : ∀ a, o = some a → Agree (f a) s (f' a) s' Q) (herror : o = none → Q (.error e) s s') :
    Agree (Step.ofOption e o >>= f) s (Step.ofOption e o >>= f') s' Q := by
  cases o with
  | some a => exact Agree.of_ok rfl rfl (hok a rfl)
  | none => exact Agree.of_run rfl rfl (herror rfl)

theorem Agree.check {ok : Bool} {e : Error} {f f' : Unit → Step σ β}
    (hok : ok = true → Agree (f ()) s (f' ()) s' Q) (herror : ok = false → Q (.error e) s s') :
    Agree (Step.check ok e >>= f) s (Step.check ok e >>= f') s' Q := by
  cases ok with
  | true => exact Agree.of_ok rfl rfl (hok rfl)
  | false => exact Agree.of_run rfl rfl (herror rfl)

theorem Agree.focus {get : τ → σ} {set : τ → σ → τ} {m m' : Step σ α} {t t' : τ}
    {S : Except Error α → τ → τ → Prop}
    (h : Agree m (get t) m' (get t') fun r s s' => S r (set t s) (set t' s')) :
    Agree (Step.focus get set m) t (Step.focus get set m') t' S := h

/-- After an attempt the rest runs, whatever the attempt came to, but it must not hide that there was
no room. -/
theorem Agree.bind_attempt {m m' : Step σ α} {f f' : Except Error α → Step σ β}
    (h : Agree m s m' s' R) (hshow : ∀ capacity t, full (f (.error (.poolFull capacity)) t).1)
    (hshow' : ∀ capacity t, full (f' (.error (.poolFull capacity)) t).1)
    (hf : ∀ r t t', R r t t' → Agree (f r) t (f' r) t' Q) :
    Agree (m.attempt >>= f) s (m'.attempt >>= f') s' Q := by
  rcases h with hfull | hfull | ⟨hsame, hr⟩
  · left
    obtain ⟨capacity, hr⟩ := full_iff.mp hfull
    change full (f (m s).1 (m s).2).1
    rw [hr]
    exact hshow capacity _
  · right
    left
    obtain ⟨capacity, hr⟩ := full_iff.mp hfull
    change full (f' (m' s').1 (m' s').2).1
    rw [hr]
    exact hshow' capacity _
  · change Agree (f (m s).1) (m s).2 (f' (m' s').1) (m' s').2 Q
    rw [← hsame]
    exact hf _ _ _ hr

/-- A list of operations of which each keeps `I` between the two states. -/
theorem Agree.each {f : α → Step σ β} {I : σ → σ → Prop}
    (hf : ∀ a t t', I t t' → Agree (f a) t (f a) t' fun _ => I) (l : List α) (h : I s s') :
    Agree (Step.each f l) s (Step.each f l) s' fun _ => I := by
  induction l generalizing s s' with
  | nil => exact Agree.of_run rfl rfl h
  | cons a rest ih =>
    refine Agree.bind (hf a s s' h) ?_ (fun _ _ _ h => h)
    intro b t t' h
    refine Agree.bind (ih h) ?_ (fun _ _ _ h => h)
    intro bs t t' h
    exact Agree.of_run rfl rfl h

end PageStore.Step
