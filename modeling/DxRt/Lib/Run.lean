import Mathlib

/-! Invariants of finite runs of a transition relation. -/

namespace Run
variable {σ : Type*} {step : σ → σ → Prop} {Inv : σ → Prop} {s t : σ}

/-- What holds at the start and is kept by every step holds at the end of every run. -/
theorem invariant (hstep : ∀ s t, step s t → Inv s → Inv t)
    (hrun : Relation.ReflTransGen step s t) (hs : Inv s) : Inv t := by
  induction hrun with
  | refl => exact hs
  | tail _ hst ih => exact hstep _ _ hst ih

variable {α : Type*}

/-- The state after some actions, if each of them is permitted and enabled. -/
def play (exec : σ → α → Option σ) (ok : σ → α → Bool) : List α → σ → Option σ
  | [], s => some s
  | a :: l, s => if ok s a then (exec s a).bind (play exec ok l) else none

/-- Actions that can be played are a run. -/
theorem play_run {exec : σ → α → Option σ} {ok : σ → α → Bool} {l : List α}
    (hok : ∀ s t a, ok s a = true → exec s a = some t → step s t) (h : play exec ok l s = some t) :
    Relation.ReflTransGen step s t := by
  induction l generalizing s with
  | nil =>
    obtain rfl : s = t := Option.some.inj h
    exact .refl
  | cons a l ih =>
    rw [play] at h
    split_ifs at h with ha
    obtain ⟨s', hexec, hrest⟩ := Option.bind_eq_some_iff.mp h
    exact .head (hok s s' a ha hexec) (ih hrest)

end Run
