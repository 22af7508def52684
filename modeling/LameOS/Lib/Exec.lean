import Mathlib.Tactic

/-!
# Programs over a state that can fail

`Exec ε σ α` is a program over the state `σ` that returns an `α` or fails with an `ε`.

* `bind_ok`, `bind_error`, `bind_eq_ok`   one step of a sequence; `run_unique`   its one result;
* `Does x s Q`      `x` does not fail from `s`, and `Q` holds of its value and state;
* `map_bind_congr`  two runs that differ in their second steps;
* `Follows B R r r'`   the outcome `r'` is that of `r`, over a related state, or a failure of `B`;
* `Keeps R x`       every state that `x` returns in is related to the one it started in;
* `Spares B I x`    from a state with the invariant `I`, `x` fails in no way of `B` and keeps `I`;
* `onlyIf`          a statement under a condition;
* `part`            a program over a part of the state, run over the whole state.
-/

set_option linter.unusedVariables false

namespace Lib

abbrev Exec (ε σ α : Type) := StateT σ (Except ε) α

namespace Exec

section
variable {ε σ τ α β : Type}

/-! ## sequences -/

@[simp] theorem ok_bind (a : α) (f : α → Except ε β) : (Except.ok a >>= f) = f a := rfl

@[simp] theorem error_bind (e : ε) (f : α → Except ε β) :
    ((Except.error e : Except ε α) >>= f) = Except.error e := rfl

theorem bind_ok {x : Exec ε σ α} {f : α → Exec ε σ β} {s s' : σ} {a : α}
    (h : x s = .ok (a, s')) : (x >>= f) s = f a s' := by
  show StateT.bind x f s = f a s'
  unfold StateT.bind
  rw [h]
  rfl

theorem bind_error {x : Exec ε σ α} {f : α → Exec ε σ β} {s : σ} {e : ε}
    (h : x s = .error e) : (x >>= f) s = .error e := by
  show StateT.bind x f s = .error e
  unfold StateT.bind
  rw [h]
  rfl

theorem bind_eq_ok {x : Exec ε σ α} {f : α → Exec ε σ β} {s : σ} {r : β × σ}
    (h : (x >>= f) s = .ok r) : ∃ a s', x s = .ok (a, s') ∧ f a s' = .ok r := by
  cases hx : x s with
  | error e =>
    rw [bind_error hx] at h
    cases h
  | ok p => exact ⟨p.1, p.2, rfl, by rw [bind_ok hx] at h; exact h⟩

@[simp] theorem pure_run (a : α) (s : σ) : (pure a : Exec ε σ α) s = .ok (a, s) := rfl
@[simp] theorem get_run (s : σ) : (get : Exec ε σ σ) s = .ok (s, s) := rfl
@[simp] theorem set_run (s t : σ) : (set t : Exec ε σ PUnit) s = .ok ((), t) := rfl
@[simp] theorem modify_run (f : σ → σ) (s : σ) :
    (modify f : Exec ε σ PUnit) s = .ok ((), f s) := rfl
@[simp] theorem throw_run (e : ε) (s : σ) : (throw e : Exec ε σ α) s = .error e := rfl

theorem ok_inj {a b : α} {s s' : σ} (h : (Except.ok (a, s) : Except ε (α × σ)) = .ok (b, s')) :
    a = b ∧ s = s' := Prod.mk.inj (Except.ok.inj h)

/-- a program has one result -/
theorem run_unique {x : Exec ε σ α} {a b : α} {s t t' : σ} (h : x s = .ok (a, t))
    (h' : x s = .ok (b, t')) : a = b ∧ t = t' := ok_inj (h.symm.trans h')

theorem pure_eq_ok {a b : α} {s s' : σ} (h : (pure a : Exec ε σ α) s = .ok (b, s')) :
    a = b ∧ s = s' := by
  cases h
  exact ⟨rfl, rfl⟩

/-! ## programs that do not fail -/

/-- `x` returns from `s`, with `Q` for its value and state -/
def Does (x : Exec ε σ α) (s : σ) (Q : α → σ → Prop) : Prop :=
  ∃ a s', x s = .ok (a, s') ∧ Q a s'

theorem Does.pure {a : α} {s : σ} {Q : α → σ → Prop} (h : Q a s) :
    Does (pure a : Exec ε σ α) s Q := ⟨a, s, rfl, h⟩

theorem Does.bind {x : Exec ε σ α} {f : α → Exec ε σ β} {s : σ} {P : α → σ → Prop}
    {Q : β → σ → Prop} (hx : Does x s P) (hf : ∀ a s', P a s' → Does (f a) s' Q) :
    Does (x >>= f) s Q := by
  obtain ⟨a, s', hrun, hP⟩ := hx
  obtain ⟨b, s'', hrun', hQ⟩ := hf a s' hP
  exact ⟨b, s'', by rw [bind_ok hrun, hrun'], hQ⟩

theorem does_bind {x : Exec ε σ α} {f : α → Exec ε σ β} {s : σ} {Q : β → σ → Prop} :
    Does (x >>= f) s Q ↔ Does x s (fun a s' => Does (f a) s' Q) := by
  constructor
  · rintro ⟨b, s'', h, hQ⟩
    obtain ⟨a, s', hx, hf⟩ := bind_eq_ok h
    exact ⟨a, s', hx, b, s'', hf, hQ⟩
  · exact fun h => Does.bind h (fun a s' ha => ha)

/-- a program that is known to run -/
theorem Does.step {x : Exec ε σ α} {f : α → Exec ε σ β} {s s' : σ} {a : α} {Q : β → σ → Prop}
    (hx : x s = .ok (a, s')) (hf : Does (f a) s' Q) : Does (x >>= f) s Q := does_bind.mpr ⟨a, s', hx, hf⟩

theorem does_iff {x : Exec ε σ α} {s s' : σ} {a : α} {Q : α → σ → Prop} (h : x s = .ok (a, s')) :
    Does x s Q ↔ Q a s' := by
  constructor
  · rintro ⟨b, t, hrun, hQ⟩
    obtain ⟨rfl, rfl⟩ := run_unique h hrun
    exact hQ
  · exact fun hQ => ⟨a, s', h, hQ⟩

theorem Does.mono {x : Exec ε σ α} {s : σ} {P Q : α → σ → Prop} (hx : Does x s P)
    (h : ∀ a s', P a s' → Q a s') : Does x s Q := by
  obtain ⟨a, s', hrun, hP⟩ := hx
  exact ⟨a, s', hrun, h a s' hP⟩

/-! ## two runs -/

/-- two sequences with one first step: what is looked at of the outcomes is the same when it is so for
the second steps -/
theorem map_bind_congr {γ : Type} {k : β × σ → γ} {x : Exec ε σ α} {f g : α → Exec ε σ β} {s : σ}
    (h : ∀ a s', x s = .ok (a, s') → (f a s').map k = (g a s').map k) :
    ((x >>= f) s).map k = ((x >>= g) s).map k := by
  cases hx : x s with
  | error e => rw [bind_error hx, bind_error hx]
  | ok r => rw [bind_ok hx, bind_ok hx, h r.1 r.2 hx]

theorem map_bind_pure {γ : Type} {k : β × σ → γ} {x : Exec ε σ α} {g : α → β} {s : σ} :
    ((x >>= fun a => pure (g a)) s).map k = (x s).map (fun r => k (g r.1, r.2)) := by
  cases hx : x s with
  | error e =>
    rw [bind_error hx]
    rfl
  | ok r =>
    rw [bind_ok hx]
    rfl

/-- the same failure, or the same value in a state that is related; the second run may also fail in a
way of `B` -/
inductive Follows (B : ε → Prop) (R : σ → τ → Prop) : Except ε (α × σ) → Except ε (α × τ) → Prop
  | ok {a : α} {s : σ} {t : τ} (h : R s t) : Follows B R (.ok (a, s)) (.ok (a, t))
  | error (e : ε) : Follows B R (.error e) (.error e)
  | fails {r : Except ε (α × σ)} {e : ε} (h : B e) : Follows B R r (.error e)

section
variable {B B' : ε → Prop} {R R' : σ → τ → Prop}

theorem Follows.mono {r : Except ε (α × σ)} {r' : Except ε (α × τ)} (h : Follows B R r r')
    (hB : ∀ e, B e → B' e) (hR : ∀ s t, R s t → R' s t) : Follows B' R' r r' := by
  cases h with
  | ok h => exact .ok (hR _ _ h)
  | error e => exact .error e
  | fails h => exact .fails (hB _ h)

theorem Follows.bind {x : Exec ε σ α} {y : Exec ε τ α} {f : α → Exec ε σ β} {g : α → Exec ε τ β}
    {s : σ} {t : τ} (h : Follows B R (x s) (y t))
    (hf : ∀ a s' t', R s' t' → Follows B R' (f a s') (g a t')) :
    Follows B R' ((x >>= f) s) ((y >>= g) t) := by
  generalize hx : x s = r at h
  generalize hy : y t = r' at h
  cases h with
  | ok hr =>
    rw [bind_ok hx, bind_ok hy]
    exact hf _ _ _ hr
  | error e =>
    rw [bind_error hx, bind_error hy]
    exact .error e
  | fails hB =>
    rw [bind_error hy]
    exact .fails hB

/-- a computation without a state -/
theorem Follows.lift {x : Except ε α} {s : σ} {t : τ} (h : R s t) :
    Follows B R ((liftM x : Exec ε σ α) s) ((liftM x : Exec ε τ α) t) := by
  cases x with
  | error e => exact .error e
  | ok a => exact .ok h

end

/-! ## relations between the first and the last state -/

/-- wherever `x` returns, the state is `R`-related to the first one -/
def Keeps (R : σ → σ → Prop) (x : Exec ε σ α) : Prop :=
  ∀ s a s', x s = .ok (a, s') → R s s'

section
variable {R : σ → σ → Prop}

theorem Keeps.pure (hr : ∀ s, R s s) (a : α) : Keeps R (pure a : Exec ε σ α) := by
  intro s b s' h
  obtain ⟨-, rfl⟩ := pure_eq_ok h
  exact hr s

theorem Keeps.throw (e : ε) : Keeps R (throw e : Exec ε σ α) := by
  intro s a s' h
  cases h

theorem Keeps.get (hr : ∀ s, R s s) : Keeps R (get : Exec ε σ σ) := by
  intro s a s' h
  cases h
  exact hr s

theorem Keeps.modify {f : σ → σ} (h : ∀ s, R s (f s)) : Keeps R (modify f : Exec ε σ PUnit) := by
  intro s a s' hrun
  cases hrun
  exact h s

theorem Keeps.bind (ht : ∀ s t u, R s t → R t u → R s u) {x : Exec ε σ α}
    {f : α → Exec ε σ β} (hx : Keeps R x) (hf : ∀ a, Keeps R (f a)) : Keeps R (x >>= f) := by
  intro s b s' h
  obtain ⟨a, t, h1, h2⟩ := bind_eq_ok h
  exact ht s t s' (hx s a t h1) (hf a t b s' h2)

theorem Keeps.ite {c : Prop} [Decidable c] {x y : Exec ε σ α} (hx : Keeps R x) (hy : Keeps R y) :
    Keeps R (if c then x else y) := by
  split
  · exact hx
  · exact hy

end

/-! ## a statement under a condition -/

/-- `if (c) x;` -/
def onlyIf (c : Prop) [Decidable c] (x : Exec ε σ PUnit) : Exec ε σ PUnit := if c then x else pure ()

theorem onlyIf_pos {c : Prop} [Decidable c] (h : c) (x : Exec ε σ PUnit) : onlyIf c x = x := if_pos h

theorem onlyIf_neg {c : Prop} [Decidable c] (h : ¬ c) (x : Exec ε σ PUnit) :
    onlyIf c x = pure () := if_neg h

theorem Keeps.onlyIf {R : σ → σ → Prop} (hr : ∀ s, R s s) {c : Prop} [Decidable c]
    {x : Exec ε σ PUnit} (hx : Keeps R x) : Keeps R (onlyIf c x) := Keeps.ite hx (Keeps.pure hr ())

/-! ## a part of the state -/

/-- `x`, over the part of the state that `get` reads and `put` replaces -/
def part (get : τ → σ) (put : σ → τ → τ) (x : Exec ε σ α) : Exec ε τ α := fun t =>
  match x (get t) with
  | .ok (a, s) => .ok (a, put s t)
  | .error e => .error e

theorem part_ok {get : τ → σ} {put : σ → τ → τ} {x : Exec ε σ α} {t : τ} {a : α} {s : σ}
    (h : x (get t) = .ok (a, s)) : part get put x t = .ok (a, put s t) := by
  unfold part
  rw [h]

theorem part_error {get : τ → σ} {put : σ → τ → τ} {x : Exec ε σ α} {t : τ} {e : ε}
    (h : x (get t) = .error e) : part get put x t = .error e := by
  unfold part
  rw [h]

theorem part_eq_ok {get : τ → σ} {put : σ → τ → τ} {x : Exec ε σ α} {t t' : τ} {a : α}
    (h : part get put x t = .ok (a, t')) : ∃ s, x (get t) = .ok (a, s) ∧ t' = put s t := by
  cases hx : x (get t) with
  | error e =>
    rw [part_error hx] at h
    cases h
  | ok p =>
    rw [part_ok (a := p.1) (s := p.2) hx] at h
    obtain ⟨rfl, rfl⟩ := ok_inj h
    exact ⟨p.2, rfl, rfl⟩

/-! ## failures that do not happen -/

/-- from a state with `I`, `x` does not fail in a way of `B`, and returns in a state with `I` -/
def Spares (B : ε → Prop) (I : σ → Prop) (x : Exec ε σ α) : Prop :=
  ∀ s, I s → (∀ e, x s = .error e → ¬ B e) ∧ ∀ a s', x s = .ok (a, s') → I s'

section
variable {B : ε → Prop} {I : σ → Prop}

theorem Spares.pure (a : α) : Spares B I (pure a : Exec ε σ α) := by
  intro s hs
  refine ⟨fun e h => (by cases h), fun b s' h => ?_⟩
  obtain ⟨-, rfl⟩ := pure_eq_ok h
  exact hs

theorem Spares.throw {e : ε} (he : ¬ B e) : Spares B I (throw e : Exec ε σ α) := by
  intro s hs
  refine ⟨fun e' h => ?_, fun a s' h => (by cases h)⟩
  cases h
  exact he

theorem Spares.get : Spares B I (get : Exec ε σ σ) := by
  intro s hs
  refine ⟨fun e h => (by cases h), fun a s' h => ?_⟩
  cases h
  exact hs

theorem Spares.modify {f : σ → σ} (hf : ∀ s, I s → I (f s)) :
    Spares B I (modify f : Exec ε σ PUnit) := by
  intro s hs
  refine ⟨fun e h => (by cases h), fun a s' h => ?_⟩
  cases h
  exact hf s hs

/-- a computation without a state -/
theorem Spares.lift {x : Except ε α} (hx : ∀ e, x = .error e → ¬ B e) :
    Spares B I (liftM x : Exec ε σ α) := by
  intro s hs
  cases x with
  | error e =>
    refine ⟨fun e' h => ?_, fun a s' h => (by cases h)⟩
    cases h
    exact hx e rfl
  | ok a =>
    refine ⟨fun e' h => (by cases h), fun b s' h => ?_⟩
    cases h
    exact hs

theorem Spares.bind {x : Exec ε σ α} {f : α → Exec ε σ β} (hx : Spares B I x)
    (hf : ∀ a, Spares B I (f a)) : Spares B I (x >>= f) := by
  intro s hs
  obtain ⟨herr, hok⟩ := hx s hs
  cases h : x s with
  | error e =>
    rw [bind_error h]
    refine ⟨fun e' he => ?_, fun b s' hb => (by cases hb)⟩
    cases he
    exact herr e h
  | ok r =>
    obtain ⟨b, t⟩ := r
    rw [bind_ok h]
    exact hf b t (hok b t h)

/-- what the program reads is a state with the invariant -/
theorem Spares.get_bind {f : σ → Exec ε σ β} (hf : ∀ s, I s → Spares B I (f s)) :
    Spares B I ((MonadState.get : Exec ε σ σ) >>= f) := by
  intro s hs
  rw [bind_ok (get_run s)]
  exact hf s hs s hs

theorem Spares.ite {c : Prop} [Decidable c] {x y : Exec ε σ α} (hx : c → Spares B I x)
    (hy : ¬ c → Spares B I y) : Spares B I (if c then x else y) := by
  by_cases h : c
  · rw [if_pos h]
    exact hx h
  · rw [if_neg h]
    exact hy h

theorem Spares.onlyIf {c : Prop} [Decidable c] {x : Exec ε σ PUnit} (hx : Spares B I x) :
    Spares B I (onlyIf c x) := Spares.ite (fun _ => hx) (fun _ => Spares.pure ())

theorem Spares.part {J : τ → Prop} {get : τ → σ} {put : σ → τ → τ} {x : Exec ε σ α}
    (hx : Spares B I x) (hget : ∀ t, J t → I (get t)) (hput : ∀ s t, J t → I s → J (put s t)) :
    Spares B J (part get put x) := by
  intro t ht
  obtain ⟨herr, hok⟩ := hx (get t) (hget t ht)
  refine ⟨fun e h => ?_, fun a t' h => ?_⟩
  · cases hr : x (get t) with
    | error e1 =>
      rw [part_error hr] at h
      cases h
      exact herr e hr
    | ok r =>
      rw [part_ok (a := r.1) (s := r.2) hr] at h
      cases h
  · obtain ⟨s, hr, rfl⟩ := part_eq_ok h
    exact hput s t ht (hok a s hr)

end

end

end Exec

end Lib
