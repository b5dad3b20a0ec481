import DxRt.Lib.Run

/-! Work items over a shared state, taken up in any order.

    A program with worker threads and queues is a shared state `σ` and a list of work items `W`, one
    per thread or queue entry. A step takes any item and replaces it by others, as the environment
    `E` decides; items may also arrive from outside. An invariant is stated for one item in front of
    the rest, since the order of the items does not matter. -/

namespace Workers
variable {σ W E A : Type*}

/-- The shared state and the work in progress. -/
structure Config (σ W : Type*) where
  shared : σ
  work : List W

/-- What becomes of an item, and of an arrival; `none` when there is no such step. -/
structure System (σ W E A : Type*) where
  exec : σ → W → E → Option (σ × List W)
  arrive : σ → A → Option (σ × List W)

variable (sys : System σ W E A) (ok : σ → W → E → Prop) (allowed : σ → A → Prop)

inductive Step : Config σ W → Config σ W → Prop
  | work {s s' : σ} {before new after : List W} {w : W} {e : E} (hok : ok s w e)
      (h : sys.exec s w e = some (s', new)) : Step ⟨s, before ++ w :: after⟩ ⟨s', before ++ new ++ after⟩
  | arrive {s s' : σ} {work new : List W} {a : A} (hok : allowed s a)
      (h : sys.arrive s a = some (s', new)) : Step ⟨s, work⟩ ⟨s', new ++ work⟩

variable {sys ok allowed}

/-- What does not depend on the order of the items, and is kept by every item in front of any rest
    and by every arrival, holds at the end of every run. -/
theorem invariant {Inv : σ → List W → Prop}
    (hperm : ∀ s l l', l.Perm l' → Inv s l → Inv s l')
    (hwork : ∀ s w rest e s' new, Inv s (w :: rest) → ok s w e →
      sys.exec s w e = some (s', new) → Inv s' (new ++ rest))
    (harrive : ∀ s work a s' new, Inv s work → allowed s a →
      sys.arrive s a = some (s', new) → Inv s' (new ++ work))
    {c c' : Config σ W} (hrun : Relation.ReflTransGen (Step sys ok allowed) c c')
    (h : Inv c.shared c.work) : Inv c'.shared c'.work := by
  refine @Run.invariant _ _ (fun c : Config σ W => Inv c.shared c.work) _ _ ?_ hrun h
  intro c c' hstep hinv
  cases hstep with
  | @work s s' before new after w e hok hexec =>
    have hfront : Inv s (w :: (before ++ after)) := hperm _ _ _ List.perm_middle hinv
    refine hperm _ _ _ ?_ (hwork _ _ _ _ _ _ hfront hok hexec)
    rw [← List.append_assoc]
    exact List.perm_append_comm.append_right _
  | arrive hok harr => exact harrive _ _ _ _ _ hinv hok harr

/-! ### A run by its choices -/

/-- The next step: the `i`-th item, or an arrival. -/
inductive Choice (E A : Type*) where
  | work (i : ℕ) (e : E)
  | arrive (a : A)

variable (sys ok allowed) [∀ s w e, Decidable (ok s w e)] [∀ s a, Decidable (allowed s a)]

/-- The configuration after a choice, if the step exists and is permitted. -/
def next (c : Config σ W) : Choice E A → Option (Config σ W)
  | .work i e =>
    match c.work[i]? with
    | none => none
    | some w =>
      if ok c.shared w e then
        (sys.exec c.shared w e).map fun r => ⟨r.1, c.work.take i ++ r.2 ++ c.work.drop (i + 1)⟩
      else none
  | .arrive a =>
    if allowed c.shared a then (sys.arrive c.shared a).map fun r => ⟨r.1, r.2 ++ c.work⟩ else none

def play (c : Config σ W) (choices : List (Choice E A)) : Option (Config σ W) :=
  choices.foldlM (next sys ok allowed) c

variable {sys ok allowed}

theorem next_step {c c' : Config σ W} {choice : Choice E A}
    (h : next sys ok allowed c choice = some c') : Step sys ok allowed c c' := by
  obtain ⟨s, work⟩ := c
  cases choice with
  | work i e =>
    simp only [next] at h
    cases hi : work[i]? with
    | none => simp [hi] at h
    | some w =>
      simp only [hi] at h
      split_ifs at h with hok
      obtain ⟨⟨s', new⟩, hexec, rfl⟩ := Option.map_eq_some_iff.mp h
      obtain ⟨hlt, rfl⟩ := List.getElem?_eq_some_iff.mp hi
      have hsplit : work = work.take i ++ work[i] :: work.drop (i + 1) := by
        rw [← List.drop_eq_getElem_cons hlt, List.take_append_drop]
      have hstep := @Step.work σ W E A sys ok allowed s s' (work.take i) new (work.drop (i + 1)) _ e hok hexec
      rwa [← hsplit] at hstep
  | arrive a =>
    simp only [next] at h
    split_ifs at h with hok
    obtain ⟨⟨s', new⟩, harr, rfl⟩ := Option.map_eq_some_iff.mp h
    exact .arrive hok harr

/-- A list of choices that can be played is a run. -/
theorem play_run {c c' : Config σ W} {choices : List (Choice E A)}
    (h : play sys ok allowed c choices = some c') :
    Relation.ReflTransGen (Step sys ok allowed) c c' := by
  induction choices generalizing c with
  | nil =>
    obtain rfl : c = c' := Option.some.inj h
    exact .refl
  | cons choice choices ih =>
    rw [play, List.foldlM_cons] at h
    obtain ⟨c₁, hnext, hrest⟩ := Option.bind_eq_some_iff.mp h
    exact .head (next_step hnext) (ih hrest)

end Workers
