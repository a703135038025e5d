import HotStuff.Basic

/-!
# The timeout manager of a twins node

The `timeoutManager` counts ticks down and, when its countdown reaches zero, adds a
`TimeoutEvent` for the synchronizer's view and moves its node's effective view past that view;
a `ViewChangeEvent` restarts the countdown. `Inv`, a countdown within `1..timeout`, is kept by
every observation (`observe_inv`), and under it `k` ticks add one `TimeoutEvent` every `timeout`
ticks (`run_ticks_count`). Over every run the effective view is a high-water mark, one past the
largest timed-out view, as long as no view is the largest `uint64` (`run_effectiveView`). But
`createTwinsNodes` leaves the countdown at its zero value, outside `Inv`: until the first view
change the countdown only goes down and no tick adds a `TimeoutEvent` (`run_ticks_created`).
-/

namespace HotStuff.Twins

/-- A `timeoutManager`, with the `effectiveView` of its node, which it advances. -/
structure TimeoutManager where
  countdown : Int
  timeout : Int
  effectiveView : HotStuff.View
deriving DecidableEq

/-- What the observers `InitConsensusModule` registers see: a `tick`, while the synchronizer is
at `view`, or a `ViewChangeEvent`. -/
inductive Observation
  | tick (view : HotStuff.View)
  | viewChange
deriving DecidableEq

namespace TimeoutManager

/-- `advance`, while the synchronizer is at `view`, with the `TimeoutEvent` it adds, if any. -/
def advance (tm : TimeoutManager) (view : HotStuff.View) : TimeoutManager × Option HotStuff.View :=
  let countdown := goInt (tm.countdown - 1)
  if countdown = 0 then
    ({ tm with countdown := tm.timeout,
               effectiveView := if tm.effectiveView ≤ view then view + 1 else tm.effectiveView },
      some view)
  else ({ tm with countdown }, none)

/-- `viewChange`. -/
def viewChange (tm : TimeoutManager) : TimeoutManager := { tm with countdown := tm.timeout }

/-- The observer that sees `o`. -/
def observe (tm : TimeoutManager) : Observation → TimeoutManager × Option HotStuff.View
  | .tick view => tm.advance view
  | .viewChange => (tm.viewChange, none)

/-- The manager after the observations, and the `TimeoutEvent`s they added, in order. -/
def run (tm : TimeoutManager) : List Observation → TimeoutManager × List HotStuff.View
  | [] => (tm, [])
  | o :: os =>
    let step := tm.observe o
    let rest := step.1.run os
    (rest.1, step.2.toList ++ rest.2)

/-- The timeout manager `createTwinsNodes` registers, `&timeoutManager{..., timeout: 5}`: its
countdown is left at the zero value, as is the effective view of its new node. -/
def created : TimeoutManager := { countdown := 0, timeout := 5, effectiveView := 0 }

theorem run_append (tm : TimeoutManager) (os₁ os₂ : List Observation) :
    tm.run (os₁ ++ os₂) = ((tm.run os₁).1.run os₂ |>.1, (tm.run os₁).2 ++ ((tm.run os₁).1.run os₂).2) := by
  induction os₁ generalizing tm with
  | nil => rfl
  | cons o os ih => simp [run, ih]

/-- Go's `countdown--` while the countdown is a positive `int`. -/
theorem goInt_sub_one {c : Int} (h1 : 1 ≤ c) (h2 : c < 2 ^ 63) : goInt (c - 1) = c - 1 := by
  simp only [goInt, Int.bmod]
  split <;> omega

/-- Go's `countdown--` while the countdown is at most `0` and far from the least `int`. -/
theorem goInt_sub_one_of_nonpos {c : Int} (h1 : c ≤ 0) (h2 : -2 ^ 63 < c) :
    goInt (c - 1) = c - 1 := by
  simp only [goInt, Int.bmod]
  split <;> omega

/-! ## The invariant -/

/-- The countdown lies in `1..timeout`, an `int`. -/
structure Inv (tm : TimeoutManager) : Prop where
  one_le : 1 ≤ tm.countdown
  le_timeout : tm.countdown ≤ tm.timeout
  timeout_lt : tm.timeout < 2 ^ 63

theorem viewChange_inv {tm : TimeoutManager} (h1 : 1 ≤ tm.timeout) (h2 : tm.timeout < 2 ^ 63) :
    tm.viewChange.Inv :=
  ⟨h1, le_rfl, h2⟩

/-- One tick under `Inv`: the countdown steps down, or reaches zero, adds the `TimeoutEvent` for
the synchronizer's view and starts again from `timeout`. -/
theorem advance_of_inv {tm : TimeoutManager} (h : tm.Inv) (view : HotStuff.View) :
    tm.advance view =
      if tm.countdown = 1 then
        ({ tm with countdown := tm.timeout,
                   effectiveView := if tm.effectiveView ≤ view then view + 1 else tm.effectiveView },
          some view)
      else ({ tm with countdown := tm.countdown - 1 }, none) := by
  have := h.le_timeout
  have := h.timeout_lt
  rw [advance, goInt_sub_one h.one_le (by omega)]
  by_cases h1 : tm.countdown = 1
  · simp [h1]
  · rw [if_neg (by omega), if_neg h1]

theorem observe_inv {tm : TimeoutManager} (h : tm.Inv) (o : Observation) : (tm.observe o).1.Inv := by
  have := h.one_le
  have := h.le_timeout
  cases o with
  | viewChange => exact ⟨by simp [observe, viewChange]; omega, le_rfl, h.timeout_lt⟩
  | tick view =>
    rw [observe, advance_of_inv h]
    split
    · exact ⟨by simp; omega, le_rfl, h.timeout_lt⟩
    · exact ⟨by simp; omega, by simp; omega, h.timeout_lt⟩

theorem run_inv {tm : TimeoutManager} (h : tm.Inv) (os : List Observation) : (tm.run os).1.Inv := by
  induction os generalizing tm with
  | nil => exact h
  | cons o os ih => exact ih (observe_inv h o)

/-- No observation changes `timeout`. -/
theorem observe_timeout (tm : TimeoutManager) (o : Observation) :
    (tm.observe o).1.timeout = tm.timeout := by
  cases o with
  | tick view =>
    simp only [observe, advance]
    split <;> rfl
  | viewChange => rfl

/-! ## The effective view -/

/-- One observation moves the effective view, as a number, to one past the view of the
`TimeoutEvent` it adds, if that is further, while that view is not the largest `uint64`. -/
theorem observe_effectiveView (tm : TimeoutManager) (o : Observation)
    (hv : ∀ v, o = .tick v → v.toNat + 1 < 2 ^ 64) :
    (tm.observe o).1.effectiveView.toNat =
      (tm.observe o).2.toList.foldl (fun ev v => max ev (v.toNat + 1)) tm.effectiveView.toNat := by
  cases o with
  | viewChange => rfl
  | tick view =>
    have hview := hv view rfl
    simp only [observe, advance]
    split
    · simp only [Option.toList_some, List.foldl_cons, List.foldl_nil]
      split
      · have : tm.effectiveView.toNat ≤ view.toNat := ‹_›
        rw [toNat_add_one, Nat.mod_eq_of_lt hview]
        omega
      · have : ¬ tm.effectiveView.toNat ≤ view.toNat := ‹_›
        omega
    · rfl

/-- The run lemma of `observe_effectiveView`. -/
theorem effectiveView_run (tm : TimeoutManager) (os : List Observation)
    (hv : ∀ v, Observation.tick v ∈ os → v.toNat + 1 < 2 ^ 64) :
    (tm.run os).1.effectiveView.toNat =
      (tm.run os).2.foldl (fun ev v => max ev (v.toNat + 1)) tm.effectiveView.toNat := by
  induction os generalizing tm with
  | nil => rfl
  | cons o os ih =>
    simp only [run]
    rw [List.foldl_append, ← observe_effectiveView tm o fun v ho => hv v (ho ▸ List.mem_cons_self _ _),
      ← ih _ fun v h => hv v (List.mem_cons_of_mem _ h)]

/-- The running maximum of one past each view ends no lower than it started, and past every
view. -/
theorem foldl_max_bounds : ∀ (vs : List HotStuff.View) (ev : Nat),
    ev ≤ vs.foldl (fun ev v => max ev (v.toNat + 1)) ev ∧
      ∀ v ∈ vs, v.toNat + 1 ≤ vs.foldl (fun ev v => max ev (v.toNat + 1)) ev
  | [], _ => by simp
  | v :: vs, ev => by
    obtain ⟨ih₁, ih₂⟩ := foldl_max_bounds vs (max ev (v.toNat + 1))
    simp only [List.foldl_cons, List.mem_cons, forall_eq_or_imp]
    exact ⟨by omega, by omega, ih₂⟩

/-- For every state of the timeout manager and every sequence of observations whose ticks are
at views below the largest `uint64`: the effective view ends at the largest of where it started
and one past each view a `TimeoutEvent` was added for. So it never decreases, and it ends past
every such view. -/
theorem run_effectiveView (tm : TimeoutManager) (os : List Observation)
    (hv : ∀ v, Observation.tick v ∈ os → v.toNat + 1 < 2 ^ 64) :
    (tm.run os).1.effectiveView.toNat =
        (tm.run os).2.foldl (fun ev v => max ev (v.toNat + 1)) tm.effectiveView.toNat ∧
      tm.effectiveView ≤ (tm.run os).1.effectiveView ∧
      ∀ v ∈ (tm.run os).2, v < (tm.run os).1.effectiveView := by
  have heq := effectiveView_run tm os hv
  obtain ⟨h₁, h₂⟩ := foldl_max_bounds (tm.run os).2 tm.effectiveView.toNat
  rw [← heq] at h₁ h₂
  exact ⟨heq, h₁, fun v hv' => Nat.lt_of_succ_le (h₂ v hv')⟩

/-- A view change, then five ticks at view 7: the fifth adds the `TimeoutEvent` for view 7. -/
theorem run_effectiveView_view_seven :
    (∀ v, Observation.tick v ∈ [.viewChange, .tick 7, .tick 7, .tick 7, .tick 7, .tick 7] →
      v.toNat + 1 < 2 ^ 64) ∧
    (created.run [.viewChange, .tick 7, .tick 7, .tick 7, .tick 7, .tick 7]).1.effectiveView.toNat =
        (created.run [.viewChange, .tick 7, .tick 7, .tick 7, .tick 7, .tick 7]).2.foldl
          (fun ev v => max ev (v.toNat + 1)) created.effectiveView.toNat ∧
      created.effectiveView ≤
        (created.run [.viewChange, .tick 7, .tick 7, .tick 7, .tick 7, .tick 7]).1.effectiveView ∧
      ∀ v ∈ (created.run [.viewChange, .tick 7, .tick 7, .tick 7, .tick 7, .tick 7]).2,
        v < (created.run [.viewChange, .tick 7, .tick 7, .tick 7, .tick 7, .tick 7]).1.effectiveView :=
  have hv : ∀ v, Observation.tick v ∈ [.viewChange, .tick 7, .tick 7, .tick 7, .tick 7, .tick 7] →
      v.toNat + 1 < 2 ^ 64 := by
    simp only [List.mem_cons, Observation.tick.injEq, List.mem_singleton, reduceCtorEq, false_or,
      or_self, List.not_mem_nil, or_false]
    rintro v rfl
    decide
  ⟨hv, run_effectiveView created _ hv⟩

/-- Under `Inv`, ticks with no view change, at any views, add a `TimeoutEvent` every `timeout`
ticks: with `p = timeout - countdown` ticks already counted, `k` ticks add `(p + k) / timeout` of
them and leave the countdown at `timeout - (p + k) % timeout`. -/
theorem run_ticks_count {tm : TimeoutManager} (h : tm.Inv) (vs : List HotStuff.View) :
    (tm.run (vs.map .tick)).2.length =
        ((tm.timeout - tm.countdown).toNat + vs.length) / tm.timeout.toNat ∧
      (tm.run (vs.map .tick)).1.countdown =
        tm.timeout - (((tm.timeout - tm.countdown).toNat + vs.length) % tm.timeout.toNat : Nat) := by
  induction vs generalizing tm with
  | nil =>
    have := h.one_le
    have := h.le_timeout
    have hp : (tm.timeout - tm.countdown).toNat < tm.timeout.toNat := by omega
    simp only [List.map_nil, run, List.length_nil, Nat.add_zero,
      Nat.div_eq_of_lt hp, Nat.mod_eq_of_lt hp, true_and]
    omega
  | cons v vs ih =>
    have := h.one_le
    have := h.le_timeout
    have ht : 0 < tm.timeout.toNat := by omega
    obtain ⟨ih₁, ih₂⟩ := ih (observe_inv h (.tick v))
    simp only [List.map_cons, run, List.length_append, List.length_cons] at ih₁ ih₂ ⊢
    rw [ih₁, ih₂, observe_timeout]
    by_cases h1 : tm.countdown = 1
    · -- the countdown reaches zero and starts again from `timeout`
      have hstep : (tm.observe (.tick v)).2 = some v ∧
          (tm.observe (.tick v)).1.countdown = tm.timeout := by
        simp [observe, advance_of_inv h, h1]
      have hk : (tm.timeout - tm.countdown).toNat + (vs.length + 1) =
          tm.timeout.toNat + vs.length := by omega
      rw [hstep.1, hstep.2, hk, Nat.add_div_left _ ht, Nat.add_mod_left]
      simp [Nat.add_comm]
    · have hstep : (tm.observe (.tick v)).2 = none ∧
          (tm.observe (.tick v)).1.countdown = tm.countdown - 1 := by
        simp [observe, advance_of_inv h, h1]
      have hk : (tm.timeout - (tm.countdown - 1)).toNat + vs.length =
          (tm.timeout - tm.countdown).toNat + (vs.length + 1) := by omega
      rw [hstep.1, hstep.2, hk]
      simp

/-- After a view change, seven ticks: one `TimeoutEvent`, at the fifth, and two ticks counted
towards the next. -/
theorem run_ticks_count_seven :
    created.viewChange.Inv ∧
    (created.viewChange.run (([1, 2, 3, 4, 5, 6, 7] : List HotStuff.View).map .tick)).2.length =
        ((created.viewChange.timeout - created.viewChange.countdown).toNat +
          ([1, 2, 3, 4, 5, 6, 7] : List HotStuff.View).length) / created.viewChange.timeout.toNat ∧
      (created.viewChange.run (([1, 2, 3, 4, 5, 6, 7] : List HotStuff.View).map .tick)).1.countdown =
        created.viewChange.timeout - (((created.viewChange.timeout -
          created.viewChange.countdown).toNat + ([1, 2, 3, 4, 5, 6, 7] : List HotStuff.View).length) %
            created.viewChange.timeout.toNat : Nat) :=
  ⟨viewChange_inv (by decide) (by decide), run_ticks_count (viewChange_inv (by decide) (by decide)) _⟩

/-! ## From construction -/

/-- From `createTwinsNodes`, ticks with no view change only count down past zero: after `k` of
them the countdown is `-k`, and none adds a `TimeoutEvent`. -/
theorem run_ticks_created (view : HotStuff.View) (k : Nat) (hk : k < 2 ^ 63) :
    created.run (List.replicate k (.tick view)) = ({ created with countdown := -k }, []) := by
  induction k with
  | zero => rfl
  | succ k ih =>
    rw [List.replicate_succ', run_append, ih (by omega)]
    simp only [run, observe, advance, created, goInt_sub_one_of_nonpos (show -(k : Int) ≤ 0 by omega)
      (by omega), List.append_nil, Option.toList_none]
    rw [if_neg (by omega)]
    simp only [Option.toList_none, List.append_nil, Prod.mk.injEq, TimeoutManager.mk.injEq,
      and_true]
    omega

theorem run_ticks_created_five :
    5 < 2 ^ 63 ∧ created.run (List.replicate 5 (.tick 1)) = ({ created with countdown := -5 }, []) :=
  ⟨by decide, run_ticks_created 1 5 (by decide)⟩

end TimeoutManager

end HotStuff.Twins
