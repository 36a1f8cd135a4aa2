/-
Runs of a partial step function.

A component that reacts to events is given by `step : σ → α → Option σ`; `none`
means that the event cannot happen in that state.  `exec` runs a list of
events, `Along` says that every event of a run meets a condition in the state
it meets, and `exec_invariant` is the one induction over runs: an invariant
that every admissible step keeps holds in the state the run ends in.
-/
import Mathlib

namespace Runs

variable {σ α : Type*} {step : σ → α → Option σ} {P Q : σ → α → Prop} {I J : σ → Prop}

/-- The state after a list of events, if each of them can happen. -/
def exec (step : σ → α → Option σ) : σ → List α → Option σ
  | s, [] => some s
  | s, a :: as => (step s a).bind fun s' => exec step s' as

@[simp] theorem exec_nil (s : σ) : exec step s [] = some s := rfl

theorem exec_cons_eq_some {s t : σ} {a : α} {as : List α} :
    exec step s (a :: as) = some t ↔
      ∃ s', step s a = some s' ∧ exec step s' as = some t := by
  simp [exec, Option.bind_eq_some_iff]

theorem exec_append (s : σ) (as bs : List α) :
    exec step s (as ++ bs) = (exec step s as).bind fun t => exec step t bs := by
  induction as generalizing s with
  | nil => rfl
  | cons a as ih =>
    rw [List.cons_append, exec, exec, Option.bind_assoc]
    congr 1
    funext s'
    exact ih s'

/-- Every event of the run satisfies `P` in the state in which it happens. -/
def Along (step : σ → α → Option σ) (P : σ → α → Prop) : σ → List α → Prop
  | _, [] => True
  | s, a :: as => P s a ∧ ∀ s', step s a = some s' → Along step P s' as

@[simp] theorem along_nil (s : σ) : Along step P s [] := trivial

theorem along_cons {s : σ} {a : α} {as : List α} :
    Along step P s (a :: as) ↔ P s a ∧ ∀ s', step s a = some s' → Along step P s' as :=
  Iff.rfl

instance Along.decidable [∀ s a, Decidable (P s a)] :
    ∀ (s : σ) (as : List α), Decidable (Along step P s as)
  | _, [] => isTrue trivial
  | s, a :: as =>
    match h : step s a with
    | none => decidable_of_iff (P s a) (by simp [along_cons, h])
    | some s' =>
      have := Along.decidable s' as
      decidable_of_iff (P s a ∧ Along step P s' as) (by simp [along_cons, h])

theorem Along.mono (hPQ : ∀ s a, P s a → Q s a) :
    ∀ {as : List α} {s : σ}, Along step P s as → Along step Q s as
  | [], _, _ => trivial
  | _ :: _, _, h => ⟨hPQ _ _ h.1, fun s' hs' => (h.2 s' hs').mono hPQ⟩

theorem along_of_forall {s : σ} {as : List α} (h : ∀ a ∈ as, ∀ s, P s a) :
    Along step P s as := by
  induction as generalizing s with
  | nil => trivial
  | cons a as ih =>
    exact ⟨h a List.mem_cons_self s, fun s' _ => ih fun b hb => h b (List.mem_cons_of_mem _ hb)⟩

theorem along_append {s : σ} {as bs : List α} (h : Along step P s (as ++ bs)) :
    Along step P s as ∧ ∀ t, exec step s as = some t → Along step P t bs := by
  induction as generalizing s with
  | nil =>
    refine ⟨trivial, fun t ht => ?_⟩
    cases ht
    exact h
  | cons a as ih =>
    refine ⟨⟨h.1, fun s' hs' => (ih (h.2 s' hs')).1⟩, fun t ht => ?_⟩
    obtain ⟨s', hs', ht'⟩ := exec_cons_eq_some.mp ht
    exact (ih (h.2 s' hs')).2 t ht'

/-- An invariant kept by every admissible step holds at the end of a run. -/
theorem exec_invariant
    (hstep : ∀ s a s', I s → P s a → step s a = some s' → I s') :
    ∀ {as : List α} {s t : σ}, I s → Along step P s as → exec step s as = some t → I t := by
  intro as
  induction as with
  | nil =>
    intro s t hs _ ht
    cases ht
    exact hs
  | cons a as ih =>
    intro s t hs hP ht
    obtain ⟨s', hs', ht'⟩ := exec_cons_eq_some.mp ht
    exact ih (hstep s a s' hs hP.1 hs') (hP.2 s' hs') ht'

/-- The same without a condition on the steps. -/
theorem exec_invariant' (hstep : ∀ s a s', I s → step s a = some s' → I s')
    {as : List α} {s t : σ} (hs : I s) (h : exec step s as = some t) : I t := by
  have hP : Along step (fun _ _ => True) s as := along_of_forall fun _ _ _ => trivial
  exact exec_invariant (fun s a s' hs _ => hstep s a s' hs) hs hP h

/-- Where every admissible step can happen and keeps the invariant, a run comes to an end. -/
theorem exec_of_along (hstep : ∀ s a, I s → P s a → ∃ s', step s a = some s' ∧ I s')
    {as : List α} {s : σ} (hs : I s) (hP : Along step P s as) :
    ∃ t, exec step s as = some t ∧ I t := by
  induction as generalizing s with
  | nil => exact ⟨s, rfl, hs⟩
  | cons a as ih =>
    obtain ⟨s', hs', hI⟩ := hstep s a hs hP.1
    obtain ⟨t, ht, hIt⟩ := ih hI (hP.2 s' hs')
    exact ⟨t, exec_cons_eq_some.mpr ⟨s', hs', ht⟩, hIt⟩

/-- If a step from a good state leads to a good state exactly when it meets the condition, all
states of a run are good exactly when all its steps meet the condition. -/
theorem forall_take_iff_along
    (hstep : ∀ s a, I s → ∃ s', step s a = some s' ∧ (P s a → I s') ∧ (J s' ↔ P s a))
    {as : List α} {s : σ} (hI : I s) (hJ : J s) :
    (∀ n, ∃ t, exec step s (as.take n) = some t ∧ J t) ↔ Along step P s as := by
  induction as generalizing s with
  | nil => exact iff_of_true (fun n => ⟨s, by simp, hJ⟩) trivial
  | cons a as ih =>
    obtain ⟨s', hs', hinv, hiff⟩ := hstep s a hI
    constructor
    · intro h
      obtain ⟨t, ht, hJt⟩ := h 1
      obtain rfl : s' = t := by simpa [exec, hs'] using ht
      have hP := hiff.mp hJt
      refine ⟨hP, fun u hu => ?_⟩
      obtain rfl : s' = u := Option.some_inj.mp (hs'.symm.trans hu)
      refine (ih (hinv hP) hJt).mp fun n => ?_
      obtain ⟨t, ht, hJt⟩ := h (n + 1)
      rw [List.take_succ_cons, exec, hs', Option.bind_some] at ht
      exact ⟨t, ht, hJt⟩
    · rintro ⟨hP, hrest⟩ n
      cases n with
      | zero => exact ⟨s, rfl, hJ⟩
      | succ n =>
        obtain ⟨t, ht, hJt⟩ := (ih (hinv hP) (hiff.mpr hP)).mpr (hrest s' hs') n
        refine ⟨t, ?_, hJt⟩
        rw [List.take_succ_cons, exec, hs', Option.bind_some]
        exact ht

/-- If from a good state a step meets one condition exactly when it meets the other, and then
leads to a good state, so do the runs. -/
theorem along_iff_along
    (hstep : ∀ s a, I s → (P s a ↔ Q s a) ∧ ∀ s', step s a = some s' → Q s a → I s')
    {as : List α} {s : σ} (hI : I s) : Along step P s as ↔ Along step Q s as := by
  induction as generalizing s with
  | nil => exact Iff.rfl
  | cons a as ih =>
    obtain ⟨hiff, hinv⟩ := hstep s a hI
    rw [along_cons, along_cons, hiff]
    refine and_congr_right fun hQ => forall_congr' fun s' => forall_congr' fun hs' => ?_
    exact ih (hinv s' hs' hQ)

/-- The same where events can be impossible: only those that can happen have to meet the
condition. -/
theorem forall_reached_iff_along
    (hstep : ∀ s a s', I s → step s a = some s' → (P s a → I s') ∧ (J s' ↔ P s a))
    {as : List α} {s : σ} (hI : I s) (hJ : J s) :
    (∀ n t, exec step s (as.take n) = some t → J t) ↔
      Along step (fun s a => (step s a).isSome → P s a) s as := by
  induction as generalizing s with
  | nil =>
    refine iff_of_true (fun n t ht => ?_) trivial
    rw [List.take_nil, exec_nil, Option.some_inj] at ht
    exact ht ▸ hJ
  | cons a as ih =>
    constructor
    · intro h
      have hgood : ∀ s', step s a = some s' → J s' := by
        intro s' hs'
        exact h 1 s' (by simp [exec, hs'])
      refine ⟨fun hsome => ?_, fun s' hs' => ?_⟩
      · obtain ⟨s', hs'⟩ := Option.isSome_iff_exists.mp hsome
        exact (hstep s a s' hI hs').2.mp (hgood s' hs')
      · obtain ⟨hinv, hiff⟩ := hstep s a s' hI hs'
        refine (ih (hinv (hiff.mp (hgood s' hs'))) (hgood s' hs')).mp fun n t ht => ?_
        exact h (n + 1) t (exec_cons_eq_some.mpr ⟨s', hs', ht⟩)
    · rintro ⟨hP, hrest⟩ n t ht
      cases n with
      | zero =>
        rw [List.take_zero, exec_nil, Option.some_inj] at ht
        exact ht ▸ hJ
      | succ n =>
        obtain ⟨s', hs', ht'⟩ := exec_cons_eq_some.mp ht
        obtain ⟨hinv, hiff⟩ := hstep s a s' hI hs'
        have hPs := hP (Option.isSome_iff_exists.mpr ⟨s', hs'⟩)
        exact (ih (hinv hPs) (hiff.mpr hPs)).mpr (hrest s' hs') n t ht'

/-- The same where a step that does not meet the condition may be impossible. -/
theorem forall_take_iff_along_of_partial
    (hstep : ∀ s a, I s → (P s a → ∃ s', step s a = some s' ∧ I s' ∧ J s') ∧
      ((∃ s', step s a = some s' ∧ J s') → P s a))
    {as : List α} {s : σ} (hI : I s) (hJ : J s) :
    (∀ n, ∃ t, exec step s (as.take n) = some t ∧ J t) ↔ Along step P s as := by
  induction as generalizing s with
  | nil => exact iff_of_true (fun n => ⟨s, by simp, hJ⟩) trivial
  | cons a as ih =>
    obtain ⟨hgood, hback⟩ := hstep s a hI
    constructor
    · intro h
      obtain ⟨t, ht, hJt⟩ := h 1
      have hone : step s a = some t := by simpa [exec] using ht
      have hP := hback ⟨t, hone, hJt⟩
      refine ⟨hP, fun u hu => ?_⟩
      obtain ⟨s', hs', hI', hJ'⟩ := hgood hP
      obtain rfl : s' = u := Option.some_inj.mp (hs'.symm.trans hu)
      refine (ih hI' hJ').mp fun n => ?_
      obtain ⟨t, ht, hJt⟩ := h (n + 1)
      rw [List.take_succ_cons, exec, hs', Option.bind_some] at ht
      exact ⟨t, ht, hJt⟩
    · rintro ⟨hP, hrest⟩ n
      obtain ⟨s', hs', hI', hJ'⟩ := hgood hP
      cases n with
      | zero => exact ⟨s, rfl, hJ⟩
      | succ n =>
        obtain ⟨t, ht, hJt⟩ := (ih hI' hJ').mpr (hrest s' hs') n
        refine ⟨t, ?_, hJt⟩
        rw [List.take_succ_cons, exec, hs', Option.bind_some]
        exact ht

end Runs
