/-
The timer queue (rpctimer.c).

Timers wait in a queue that is sorted by the time at which they are next to run.  The timer thread
takes a timer whose time has come off the queue, puts it on the running list, and calls its routine
with the lock dropped; if the timer is still on the running list when the routine returns, it goes
back into the queue.  Three values are kept beside the queue: its tail, the tail's time, and the time
for which the thread waits.

The queue and the running list are lists of timers.  A step of the thread goes from one place where
the lock is dropped to the next, so that other threads and the routines that are called can do what
they like between two steps.

* `setInt_spec`, `clear_spec` — what the operations do to a queue that is in order;
* `timer_sound` — what holds in every run; `not_adjust_keeps` is what `rpc__timer_adjust` does to a
  timer that is not set.
-/
import FreeDce.Lib.Runs

namespace Timer

open Runs

/-! ### Data -/

/-- The thread is about to look at the queue, has called the routine of a timer, or waits until a
time. -/
inductive Thread
  | looping
  | calling (t : ℕ)
  | waiting (deadline : ℕ)
deriving DecidableEq, Repr

structure State where
  frequency : ℕ → ℕ := fun _ => 0
  trigger : ℕ → ℕ := fun _ => 0
  /-- The timers from `rpc_timer_head` on. -/
  queue : List ℕ := []
  timerTail : Option ℕ := none
  timerHighTrigger : ℕ := 0
  runningList : List ℕ := []
  timerCurTrigger : ℕ := 0
  clockCurr : ℕ := 0
  thread : Thread := .looping
  /-- The timers whose routines were called. -/
  calls : List ℕ := []

/-- `rpc_clock_t` has 32 bits. -/
def clockRange : ℕ := 2 ^ 32

/-- `RPC_CLOCK_SEC (50)`. -/
def maxStep : ℕ := 250

/-! ### The operations -/

/-- `rpc__timer_prod`: a thread that waits is woken. -/
def prod (s : State) (trigger : ℕ) : State :=
  { s with
    timerCurTrigger := trigger
    thread := match s.thread with
      | .waiting _ => .looping
      | thread => thread }

/-- If the thread will wake up later, it is prodded. -/
def prodIfLater (s : State) (trigger : ℕ) : State :=
  if trigger < s.timerCurTrigger then prod s trigger else s

/-- `rpc_timer_tail->next = t`: what is behind the tail is cut off, and a tail that is not in the
queue leads nowhere. -/
def linkTail (queue : List ℕ) (tail : Option ℕ) (t : ℕ) : List ℕ :=
  match tail with
  | some x => if x ∈ queue then queue.takeWhile (· ≠ x) ++ [x, t] else queue
  | none => queue

/-- The loop that looks for the first timer with a later time; `none` if there is none. -/
def insertBefore (trigger : ℕ → ℕ) (t : ℕ) : List ℕ → Option (List ℕ)
  | [] => none
  | x :: rest =>
    if trigger t < trigger x then some (t :: x :: rest)
    else (insertBefore trigger t rest).map (x :: ·)

/-- `rpc__timer_set_int`; `none` is the assertion. -/
def setInt (s : State) (t freq : ℕ) : Option State :=
  let trig := (freq + s.clockCurr) % clockRange
  let s := { s with
    frequency := Function.update s.frequency t freq
    trigger := Function.update s.trigger t trig }
  if s.queue ≠ [] ∧ s.timerHighTrigger ≤ trig then
    some { s with
      queue := linkTail s.queue s.timerTail t
      timerTail := some t
      timerHighTrigger := trig }
  else
    match insertBefore s.trigger t s.queue with
    | some queue =>
      if s.queue.head?.any fun x => trig < s.trigger x then
        some (prodIfLater { s with queue := queue } trig)
      else some { s with queue := queue }
    | none =>
      if s.queue = [] then
        some (prodIfLater
          { s with queue := [t], timerTail := some t, timerHighTrigger := trig } trig)
      else none

/-- `rpc__timer_clear`. -/
def clear (s : State) (t : ℕ) : State :=
  if t ∈ s.runningList then { s with runningList := s.runningList.erase t }
  else if t ∈ s.queue then
    if s.queue.head? = some t then { s with queue := s.queue.tail }
    else if s.queue.getLast? = some t then
      { s with
        queue := s.queue.erase t
        timerTail := (s.queue.erase t).getLast?
        timerHighTrigger := (s.queue.erase t).getLast?.elim 0 s.trigger }
    else { s with queue := s.queue.erase t }
  else s

/-- `rpc__timer_adjust`. -/
def adjust (s : State) (t freq : ℕ) : Option State :=
  if t ∈ s.runningList then some { s with frequency := Function.update s.frequency t freq }
  else setInt (clear s t) t freq

/-- The rest of `rpc__timer_callout` up to the next call, or of the turn of `timer_loop` up to the
wait. -/
def callout (s : State) : State :=
  match s.queue with
  | t :: rest =>
    if s.trigger t ≤ s.clockCurr then
      { s with
        queue := rest
        runningList := t :: s.runningList
        thread := .calling t
        calls := s.calls ++ [t] }
    else
      let curTrigger := (s.clockCurr + min (s.trigger t - s.clockCurr) maxStep) % clockRange
      { s with timerCurTrigger := curTrigger, thread := .waiting curTrigger }
  | [] =>
    let curTrigger := (s.clockCurr + maxStep) % clockRange
    { s with timerCurTrigger := curTrigger, thread := .waiting curTrigger }

/-- What happens: the calls of other threads and of the routines that are called, the clock's going
on, and the steps of the timer thread. -/
inductive Event
  | set (t freq : ℕ)
  | adjust (t freq : ℕ)
  | clear (t : ℕ)
  | clockUpdate (clock : ℕ)
  | wakeUp
  | turn (clock : ℕ)
  | returned

/-- What the thread's state allows. -/
def Able (s : State) : Event → Prop
  | .wakeUp => ∃ w, s.thread = .waiting w
  | .turn _ => s.thread = .looping
  | .returned => ∃ t, s.thread = .calling t
  | _ => True

/-- An event that can happen gives `none` only where the assertion fails. -/
def step (s : State) : Event → Option State
  | .set t freq => setInt s t freq
  | .adjust t freq => adjust s t freq
  | .clear t => some (clear s t)
  | .clockUpdate clock => some { s with clockCurr := clock }
  | .wakeUp => some { s with thread := .looping }
  | .turn clock => some (callout { s with clockCurr := clock })
  | .returned =>
    match s.thread with
    | .calling t =>
      -- the timer goes back into the queue unless its routine has cleared it
      if t ∈ s.runningList then
        (setInt { s with runningList := s.runningList.erase t } t (s.frequency t)).map callout
      else some (callout s)
    | _ => none

/-- A timer that is set is not set again, its frequency is not 0, and the clock does not run over. -/
def Proper (s : State) : Event → Prop
  | .set t freq => t ∉ s.queue ∧ t ∉ s.runningList ∧ freq ≠ 0 ∧ freq + s.clockCurr < clockRange
  | .adjust _ freq => freq + s.clockCurr < clockRange
  | .clockUpdate clock => clock < clockRange
  | .turn clock => clock < clockRange
  | .returned => ∀ t, s.thread = .calling t → s.frequency t + s.clockCurr < clockRange
  | _ => True

/-! ### What is wanted -/

/-- Whether a timer is set after these events, the last one first.  To adjust a timer is to set it. -/
def IsSet (t : ℕ) : List Event → Prop
  | [] => False
  | .set t' _ :: es => t = t' ∨ IsSet t es
  | .adjust t' _ :: es => t = t' ∨ IsSet t es
  | .clear t' :: es => t ≠ t' ∧ IsSet t es
  | _ :: es => IsSet t es

/-- The same with an adjustment that leaves a timer that is not set alone. -/
def WasSet (t : ℕ) : List Event → Prop
  | [] => False
  | .set t' _ :: es => t = t' ∨ WasSet t es
  | .clear t' :: es => t ≠ t' ∧ WasSet t es
  | _ :: es => WasSet t es

/-- The queue is in order, and what is kept beside it agrees with it. -/
structure QueueOk (s : State) : Prop where
  sorted : s.queue.Pairwise fun t u => s.trigger t ≤ s.trigger u
  nodup : s.queue.Nodup
  timerTail : ∀ x, s.queue.getLast? = some x → s.timerTail = some x
  timerHighTrigger : ∀ x, s.queue.getLast? = some x → s.timerHighTrigger = s.trigger x
  wakeUp : ∀ w, s.thread = .waiting w → ∀ t ∈ s.queue, w ≤ s.trigger t

/-- What has to hold after the events of a run, for a meaning of "set". -/
structure Sound (isSet : ℕ → List Event → Prop) (es : List Event) (s : State) : Prop where
  queue : QueueOk s
  once : (s.queue ++ s.runningList).Nodup
  set : ∀ t, t ∈ s.queue ++ s.runningList ↔ isSet t es.reverse
  fires : ∀ e s', Able s e → Proper s e → step s e = some s' → s'.calls = s.calls ∨
    ∃ t, s'.calls = s.calls ++ [t] ∧ isSet t (es ++ [e]).reverse

variable {s s' : State} {t freq : ℕ}

/-! ### Setting a timer -/

theorem linkTail_eq {queue : List ℕ} {x : ℕ} (hnodup : queue.Nodup)
    (hlast : queue.getLast? = some x) : linkTail queue (some x) t = queue ++ [t] := by
  obtain ⟨front, rfl⟩ : ∃ front, queue = front ++ [x] := by
    obtain ⟨ys, hys⟩ := List.getLast?_eq_some_iff.mp hlast
    exact ⟨ys, hys⟩
  have hfront : x ∉ front := by
    rw [List.nodup_append] at hnodup
    intro hx
    exact hnodup.2.2 x hx x List.mem_cons_self rfl
  have htake : (front ++ [x]).takeWhile (· ≠ x) = front := by
    rw [List.takeWhile_append_of_pos]
    · simp
    · intro y hy
      rw [decide_eq_true_eq]
      rintro rfl
      exact hfront hy
  show (if x ∈ front ++ [x] then _ else _) = _
  rw [if_pos (List.mem_append_right _ List.mem_cons_self), htake, List.append_assoc]
  rfl

/-- The new place of a timer: before the first that is later. -/
theorem insertBefore_spec {trigger : ℕ → ℕ} {queue queue' : List ℕ}
    (hsorted : queue.Pairwise fun t u => trigger t ≤ trigger u)
    (h : insertBefore trigger t queue = some queue') :
    queue'.Perm (t :: queue) ∧ queue'.Pairwise (fun t u => trigger t ≤ trigger u) ∧
      queue'.getLast? = queue.getLast? ∧ queue ≠ [] := by
  induction queue generalizing queue' with
  | nil => cases h
  | cons x rest ih =>
    obtain ⟨hx, hrest⟩ := List.pairwise_cons.mp hsorted
    rw [insertBefore] at h
    split at h
    · rename_i hlt
      cases h
      refine ⟨List.Perm.refl _, List.pairwise_cons.mpr ⟨?_, hsorted⟩, rfl, List.cons_ne_nil _ _⟩
      intro y hy
      rcases List.mem_cons.mp hy with rfl | hy
      · exact hlt.le
      · exact hlt.le.trans (hx y hy)
    · rename_i hle
      obtain ⟨q, hq, rfl⟩ := Option.map_eq_some_iff.mp h
      obtain ⟨hperm, hsort, hlast, hne⟩ := ih hrest hq
      refine ⟨(hperm.cons x).trans (List.Perm.swap t x rest), List.pairwise_cons.mpr ⟨?_, hsort⟩, ?_,
        List.cons_ne_nil _ _⟩
      · intro y hy
        rcases List.mem_cons.mp (hperm.subset hy) with rfl | hy
        · exact not_lt.mp hle
        · exact hx y hy
      · have hqne : q ≠ [] := by
          rintro rfl
          exact List.cons_ne_nil _ _ hperm.symm.eq_nil
        rw [List.getLast?_cons_of_ne_nil hqne, List.getLast?_cons_of_ne_nil hne, hlast]

theorem insertBefore_none {trigger : ℕ → ℕ} {queue : List ℕ}
    (h : insertBefore trigger t queue = none) : ∀ x ∈ queue, trigger x ≤ trigger t := by
  induction queue with
  | nil => nofun
  | cons x rest ih =>
    rw [insertBefore] at h
    split at h
    · cases h
    · rename_i hle
      intro y hy
      rcases List.mem_cons.mp hy with rfl | hy
      · exact not_lt.mp hle
      · exact ih (Option.map_eq_none_iff.mp h) y hy

/-- While the thread waits, `rpc_timer_cur_trigger` is the time until which it waits. -/
def CurOk (s : State) : Prop := ∀ w, s.thread = .waiting w → s.timerCurTrigger = w

/-- A timer has come into the queue, and nothing else is different but the queue's own values; the
thread may have been woken. -/
structure Queued (s : State) (t : ℕ) (s' : State) : Prop where
  ok : QueueOk s'
  cur : CurOk s'
  perm : s'.queue.Perm (t :: s.queue)
  runningList : s'.runningList = s.runningList
  calls : s'.calls = s.calls
  thread : ∀ u, s'.thread = .calling u ↔ s.thread = .calling u

theorem prodIfLater_frame (s : State) (trig : ℕ) :
    (prodIfLater s trig).queue = s.queue ∧ (prodIfLater s trig).trigger = s.trigger ∧
      (prodIfLater s trig).timerTail = s.timerTail ∧
      (prodIfLater s trig).timerHighTrigger = s.timerHighTrigger ∧
      (prodIfLater s trig).runningList = s.runningList ∧ (prodIfLater s trig).calls = s.calls := by
  rw [prodIfLater]
  split <;> exact ⟨rfl, rfl, rfl, rfl, rfl, rfl⟩

theorem prodIfLater_calling (s : State) (trig u : ℕ) :
    (prodIfLater s trig).thread = .calling u ↔ s.thread = .calling u := by
  rw [prodIfLater]
  split
  · rw [prod]
    cases s.thread <;> simp
  · rfl

/-- A thread that still waits did so before, and not longer than until the new time. -/
theorem prodIfLater_waiting {trig w : ℕ} (hcur : CurOk s)
    (h : (prodIfLater s trig).thread = .waiting w) : s.thread = .waiting w ∧ w ≤ trig ∧
      (prodIfLater s trig).timerCurTrigger = w := by
  rw [prodIfLater] at h ⊢
  split at h
  · rw [prod] at h
    cases hthread : s.thread <;> rw [hthread] at h <;> cases h
  · rename_i hle
    rw [if_neg hle, hcur w h]
    rw [hcur w h] at hle
    exact ⟨h, not_lt.mp hle, rfl⟩

/-- A timer comes to the front of the queue, or into an empty queue. -/
theorem queued_prod {s₁ : State} {trig : ℕ} (hs : CurOk s₁) (hperm : s₁.queue.Perm (t :: s.queue))
    (hsorted : s₁.queue.Pairwise fun t u => s₁.trigger t ≤ s₁.trigger u) (hnodup : s₁.queue.Nodup)
    (htail : ∀ x, s₁.queue.getLast? = some x → s₁.timerTail = some x)
    (hhigh : ∀ x, s₁.queue.getLast? = some x → s₁.timerHighTrigger = s₁.trigger x)
    (hfirst : ∀ u ∈ s₁.queue, trig ≤ s₁.trigger u) (hrunning : s₁.runningList = s.runningList)
    (hcalls : s₁.calls = s.calls) (hthread : s₁.thread = s.thread) :
    Queued s t (prodIfLater s₁ trig) := by
  obtain ⟨hq, htr, hta, hhi, hru, hca⟩ := prodIfLater_frame s₁ trig
  refine ⟨⟨?_, ?_, ?_, ?_, fun w hw u hu => ?_⟩, fun w hw => (prodIfLater_waiting hs hw).2.2, ?_,
    hru.trans hrunning, hca.trans hcalls, fun u => ?_⟩
  · rw [hq, htr]
    exact hsorted
  · rw [hq]
    exact hnodup
  · rw [hq, hta]
    exact htail
  · rw [hq, htr, hhi]
    exact hhigh
  · rw [hq] at hu
    rw [htr]
    exact (prodIfLater_waiting hs hw).2.1.trans (hfirst u hu)
  · rw [hq]
    exact hperm
  · rw [prodIfLater_calling, hthread]

/-- No timer of the queue comes later than the last one. -/
theorem QueueOk.le_last (hs : QueueOk s) {x u : ℕ} (hx : s.queue.getLast? = some x)
    (hu : u ∈ s.queue) : s.trigger u ≤ s.trigger x := by
  obtain ⟨front, hfront⟩ := List.getLast?_eq_some_iff.mp hx
  have hsort := hs.sorted
  rw [hfront, List.pairwise_append] at hsort
  rw [hfront, List.mem_append, List.mem_singleton] at hu
  rcases hu with hu | rfl
  · exact hsort.2.2 u hu x List.mem_cons_self
  · exact le_rfl

/-- Nor earlier than the first one. -/
theorem QueueOk.head_le (hs : QueueOk s) {x u : ℕ} {rest : List ℕ} (hqueue : s.queue = x :: rest)
    (hu : u ∈ s.queue) : s.trigger x ≤ s.trigger u := by
  have hsort := hs.sorted
  rw [hqueue] at hsort hu
  rcases List.mem_cons.mp hu with rfl | hu
  · exact le_rfl
  · exact (List.pairwise_cons.mp hsort).1 u hu

theorem setInt_spec (hs : QueueOk s) (hcur : CurOk s) (ht : t ∉ s.queue)
    (hfits : freq + s.clockCurr < clockRange) : ∃ s', setInt s t freq = some s' ∧ Queued s t s' := by
  have htrig : (freq + s.clockCurr) % clockRange = freq + s.clockCurr := Nat.mod_eq_of_lt hfits
  rw [setInt, htrig]
  set trigger := Function.update s.trigger t (freq + s.clockCurr) with htrigger
  have hsame : ∀ u ∈ s.queue, trigger u = s.trigger u := by
    intro u hu
    refine Function.update_of_ne ?_ _ _
    rintro rfl
    exact ht hu
  have hsorted : s.queue.Pairwise fun u v => trigger u ≤ trigger v := by
    refine hs.sorted.imp_of_mem fun {u v} hu hv hle => ?_
    rw [hsame u hu, hsame v hv]
    exact hle
  have hnodup : (t :: s.queue).Nodup := List.nodup_cons.mpr ⟨ht, hs.nodup⟩
  have hself : trigger t = freq + s.clockCurr := Function.update_self t _ _
  dsimp only
  by_cases hback : s.queue ≠ [] ∧ s.timerHighTrigger ≤ freq + s.clockCurr
  · -- behind the tail
    obtain ⟨hne, hhigh⟩ := hback
    obtain ⟨x, hx⟩ : ∃ x, s.queue.getLast? = some x := ⟨_, List.getLast?_eq_some_getLast hne⟩
    have hlast := hs.timerHighTrigger x hx
    have hle : ∀ u ∈ s.queue, s.trigger u ≤ freq + s.clockCurr := by
      intro u hu
      rw [hlast] at hhigh
      exact (hs.le_last hx hu).trans hhigh
    have hlink : linkTail s.queue s.timerTail t = s.queue ++ [t] := by
      rw [hs.timerTail x hx]
      exact linkTail_eq hs.nodup hx
    rw [if_pos ⟨hne, hhigh⟩, hlink]
    refine ⟨_, rfl, ⟨?_, ?_, fun y hy => ?_, fun y hy => ?_, fun w hw u hu => ?_⟩, hcur,
      List.perm_append_singleton t s.queue, rfl, rfl, fun u => Iff.rfl⟩
    · refine List.pairwise_append.mpr ⟨hsorted, List.pairwise_singleton _ _, fun u hu v hv => ?_⟩
      obtain rfl := List.mem_singleton.mp hv
      show trigger u ≤ trigger v
      rw [hsame u hu, hself]
      exact hle u hu
    · exact (List.perm_append_singleton t s.queue).nodup_iff.mpr hnodup
    · rw [List.getLast?_concat] at hy
      exact hy
    · rw [List.getLast?_concat] at hy
      cases hy
      exact hself.symm
    · rcases List.mem_append.mp hu with hu | hu
      · show w ≤ trigger u
        rw [hsame u hu]
        exact hs.wakeUp w hw u hu
      · obtain rfl := List.mem_singleton.mp hu
        show w ≤ trigger u
        rw [hself]
        exact (hs.wakeUp w hw x (List.mem_of_getLast? hx)).trans (hle x (List.mem_of_getLast? hx))
  · rw [if_neg hback]
    cases hins : insertBefore trigger t s.queue with
    | none =>
      -- only an empty queue has no later timer
      have hempty : s.queue = [] := by
        by_contra hne
        obtain ⟨x, hx⟩ : ∃ x, s.queue.getLast? = some x := ⟨_, List.getLast?_eq_some_getLast hne⟩
        have hmem := List.mem_of_getLast? hx
        have hle := insertBefore_none hins x hmem
        rw [hself, hsame x hmem, ← hs.timerHighTrigger x hx] at hle
        exact hback ⟨hne, hle⟩
      refine ⟨_, if_pos hempty, queued_prod hcur ?_ (List.pairwise_singleton _ _)
        (List.nodup_singleton t) (fun y hy => ?_) (fun y hy => ?_) (fun u hu => ?_) rfl rfl rfl⟩
      · rw [hempty]
      · exact hy
      · cases hy
        exact hself.symm
      · obtain rfl := List.mem_singleton.mp hu
        exact hself.ge
    | some q =>
      obtain ⟨hperm, hsort, hlast, hne⟩ := insertBefore_spec hsorted hins
      have hnodup' : q.Nodup := hperm.nodup_iff.mpr hnodup
      have htail : ∀ y, q.getLast? = some y → s.timerTail = some y := by
        rw [hlast]
        exact hs.timerTail
      have hhigh : ∀ y, q.getLast? = some y →
          s.timerHighTrigger = trigger y := by
        intro y hy
        rw [hlast] at hy
        rw [hsame y (List.mem_of_getLast? hy)]
        exact hs.timerHighTrigger y hy
      obtain ⟨x, rest, hqueue⟩ := List.exists_cons_of_ne_nil hne
      have hmem : x ∈ s.queue := hqueue ▸ List.mem_cons_self
      have hhead : s.queue.head?.any (fun y => decide (freq + s.clockCurr
          < trigger y)) =
          decide (freq + s.clockCurr < s.trigger x) := by
        rw [← hsame x hmem, hqueue]
        rfl
      dsimp only
      rw [hhead]
      by_cases hfront : freq + s.clockCurr < s.trigger x
      · rw [if_pos (decide_eq_true hfront)]
        refine ⟨_, rfl, queued_prod hcur hperm hsort hnodup' htail hhigh (fun u hu => ?_) rfl rfl rfl⟩
        show freq + s.clockCurr ≤ trigger u
        rcases List.mem_cons.mp (hperm.subset hu) with rfl | hu
        · exact hself.ge
        · rw [hsame u hu]
          exact hfront.le.trans (hs.head_le hqueue hu)
      · rw [if_neg (by rw [decide_eq_true_eq]; exact hfront)]
        refine ⟨_, rfl, ⟨hsort, hnodup', htail, hhigh, fun w hw u hu => ?_⟩, hcur, hperm, rfl, rfl,
          fun u => Iff.rfl⟩
        show w ≤ trigger u
        rcases List.mem_cons.mp (hperm.subset hu) with rfl | hu
        · rw [hself]
          exact (hs.wakeUp w hw x hmem).trans (not_lt.mp hfront)
        · rw [hsame u hu]
          exact hs.wakeUp w hw u hu

/-! ### Clearing a timer -/

/-- A timer is gone, and nothing else is different. -/
structure Cleared (s : State) (t : ℕ) (s' : State) : Prop where
  ok : QueueOk s'
  cur : CurOk s'
  queue : s'.queue.Sublist s.queue ∧ ∀ u, u ∈ s'.queue ↔ u ∈ s.queue ∧ u ≠ t
  runningList : s'.runningList.Sublist s.runningList ∧
    ∀ u, u ∈ s'.runningList ↔ u ∈ s.runningList ∧ u ≠ t
  clockCurr : s'.clockCurr = s.clockCurr
  calls : s'.calls = s.calls
  thread : s'.thread = s.thread

/-- Taking a timer off the queue, with values beside it that agree with what is left. -/
theorem QueueOk.erase (hs : QueueOk s) {tail : Option ℕ} {high : ℕ}
    (htail : ∀ x, (s.queue.erase t).getLast? = some x → tail = some x ∧ high = s.trigger x) :
    QueueOk { s with queue := s.queue.erase t, timerTail := tail, timerHighTrigger := high } :=
  ⟨hs.sorted.sublist List.erase_sublist, hs.nodup.sublist List.erase_sublist,
    fun x hx => (htail x hx).1, fun x hx => (htail x hx).2,
    fun w hw u hu => hs.wakeUp w hw u (List.mem_of_mem_erase hu)⟩

theorem clear_spec (hs : QueueOk s) (hcur : CurOk s) (honce : (s.queue ++ s.runningList).Nodup)
    (t : ℕ) : Cleared s t (clear s t) := by
  obtain ⟨-, hrun, hdisj⟩ := List.nodup_append.mp honce
  have hmem : ∀ u, u ∈ s.queue.erase t ↔ u ∈ s.queue ∧ u ≠ t := by
    intro u
    rw [hs.nodup.mem_erase_iff, and_comm]
  rw [clear]
  by_cases hrunning : t ∈ s.runningList
  · have hnot : ∀ u ∈ s.queue, u ≠ t := fun u hu => hdisj u hu t hrunning
    rw [if_pos hrunning]
    refine ⟨⟨hs.sorted, hs.nodup, hs.timerTail, hs.timerHighTrigger, hs.wakeUp⟩, hcur,
      ⟨List.Sublist.refl _, fun u => (and_iff_left_of_imp (hnot u)).symm⟩,
      ⟨List.erase_sublist, fun u => ?_⟩, rfl, rfl, rfl⟩
    show u ∈ s.runningList.erase t ↔ _
    rw [hrun.mem_erase_iff, and_comm]
  · have hstays : s.runningList.Sublist s.runningList ∧
        ∀ u, u ∈ s.runningList ↔ u ∈ s.runningList ∧ u ≠ t := by
      refine ⟨List.Sublist.refl _, fun u => (and_iff_left_of_imp fun hu => ?_).symm⟩
      rintro rfl
      exact hrunning hu
    rw [if_neg hrunning]
    by_cases hqueue : t ∈ s.queue
    · rw [if_pos hqueue]
      by_cases hhead : s.queue.head? = some t
      · -- the head: the tail is kept as it is
        obtain ⟨rest, hrest⟩ := List.head?_eq_some_iff.mp hhead
        have htail : s.queue.tail = s.queue.erase t := by
          rw [hrest, List.erase_cons_head]
          rfl
        rw [if_pos hhead, htail]
        refine ⟨hs.erase fun x hx => ?_, hcur, ⟨List.erase_sublist, hmem⟩, hstays, rfl, rfl, rfl⟩
        have hlast : s.queue.getLast? = some x := by
          rw [hrest, List.erase_cons_head] at hx
          rw [hrest, List.getLast?_cons_of_ne_nil]
          · exact hx
          · rintro rfl
            cases hx
        exact ⟨hs.timerTail x hlast, hs.timerHighTrigger x hlast⟩
      · rw [if_neg hhead]
        by_cases hlast : s.queue.getLast? = some t
        · rw [if_pos hlast]
          refine ⟨hs.erase fun x hx => ⟨hx, ?_⟩, hcur, ⟨List.erase_sublist, hmem⟩, hstays, rfl, rfl,
            rfl⟩
          rw [hx]
          rfl
        · -- in the middle: the last one stays the last
          rw [if_neg hlast]
          refine ⟨hs.erase fun x hx => ?_, hcur, ⟨List.erase_sublist, hmem⟩, hstays, rfl, rfl, rfl⟩
          have hne : s.queue ≠ [] := List.ne_nil_of_mem hqueue
          obtain ⟨y, hy⟩ : ∃ y, s.queue.getLast? = some y := ⟨_, List.getLast?_eq_some_getLast hne⟩
          obtain ⟨front, hfront⟩ := List.getLast?_eq_some_iff.mp hy
          have hyt : y ≠ t := by
            rintro rfl
            exact hlast hy
          have hin : t ∈ front := by
            rw [hfront, List.mem_append, List.mem_singleton] at hqueue
            exact hqueue.resolve_right (Ne.symm hyt)
          rw [hfront, List.erase_append_left _ hin, List.getLast?_concat] at hx
          obtain rfl : y = x := Option.some_inj.mp hx
          exact ⟨hs.timerTail y hy, hs.timerHighTrigger y hy⟩
    · rw [if_neg hqueue]
      refine ⟨hs, hcur, ⟨List.Sublist.refl _, fun u => (and_iff_left_of_imp fun hu => ?_).symm⟩,
        hstays, rfl, rfl, rfl⟩
      rintro rfl
      exact hqueue hu

/-! ### The thread -/

/-- A timer whose time has come is called. -/
theorem callout_of_due {t : ℕ} {rest : List ℕ} (hqueue : s.queue = t :: rest)
    (hdue : s.trigger t ≤ s.clockCurr) :
    callout s = { s with
      queue := rest
      runningList := t :: s.runningList
      thread := .calling t
      calls := s.calls ++ [t] } := by
  rw [callout, hqueue]
  exact if_pos hdue

/-- Otherwise the thread waits, and no longer than until the first timer's time. -/
theorem callout_of_not_due (hs : ∀ t ∈ s.queue.head?, s.clockCurr < s.trigger t) :
    ∃ w, callout s = { s with timerCurTrigger := w, thread := .waiting w } ∧
      ∀ t ∈ s.queue.head?, w ≤ s.trigger t := by
  rw [callout]
  cases hqueue : s.queue with
  | nil => exact ⟨_, rfl, nofun⟩
  | cons t rest =>
    rw [hqueue] at hs
    have hlater : s.clockCurr < s.trigger t := hs t rfl
    refine ⟨_, if_neg (Nat.not_le.mpr hlater), ?_⟩
    rintro u ⟨⟩
    have hmod := Nat.mod_le (s.clockCurr + min (s.trigger t - s.clockCurr) maxStep) clockRange
    have hwait : min (s.trigger t - s.clockCurr) maxStep ≤ s.trigger t - s.clockCurr :=
      Nat.min_le_left _ _
    omega

/-- The thread gets to the next call, or waits no longer than until the first timer's time. -/
theorem callout_spec (hs : QueueOk s) :
    QueueOk (callout s) ∧ CurOk (callout s) ∧
      ((callout s).queue = s.queue ∧ (callout s).runningList = s.runningList ∧
          (callout s).calls = s.calls ∨
        ∃ t, s.queue = t :: (callout s).queue ∧ (callout s).runningList = t :: s.runningList ∧
          (callout s).calls = s.calls ++ [t]) := by
  by_cases hdue : ∃ t ∈ s.queue.head?, s.trigger t ≤ s.clockCurr
  · obtain ⟨t, hhead, hdue⟩ := hdue
    obtain ⟨rest, hqueue⟩ := List.head?_eq_some_iff.mp hhead
    have hsorted := hs.sorted
    have hnodup := hs.nodup
    rw [hqueue] at hsorted hnodup
    have hlast : ∀ x, rest.getLast? = some x → s.queue.getLast? = some x := by
      intro x hx
      rw [hqueue, List.getLast?_cons_of_ne_nil, hx]
      rintro rfl
      cases hx
    rw [callout_of_due hqueue hdue]
    exact ⟨⟨(List.pairwise_cons.mp hsorted).2, (List.nodup_cons.mp hnodup).2,
      fun x hx => hs.timerTail x (hlast x hx), fun x hx => hs.timerHighTrigger x (hlast x hx),
      nofun⟩, nofun, .inr ⟨t, hqueue, rfl, rfl⟩⟩
  · obtain ⟨w, hcallout, hfirst⟩ := callout_of_not_due fun t ht =>
      Nat.not_le.mp fun hle => hdue ⟨t, ht, hle⟩
    rw [hcallout]
    refine ⟨⟨hs.sorted, hs.nodup, hs.timerTail, hs.timerHighTrigger, fun v hv u hu => ?_⟩,
      fun v hv => ?_, .inl ⟨rfl, rfl, rfl⟩⟩
    · cases hv
      have hsorted := hs.sorted
      have hmem : u ∈ s.queue := hu
      cases hqueue : s.queue with
      | nil =>
        rw [hqueue] at hmem
        cases hmem
      | cons t rest =>
        rw [hqueue] at hsorted hmem hfirst
        have hle : w ≤ s.trigger t := hfirst t rfl
        rcases List.mem_cons.mp hmem with rfl | hrest
        · exact hle
        · exact hle.trans (List.rel_of_pairwise_cons hsorted hrest)
    · cases hv
      rfl

/-! ### Runs -/

/-- What holds after events, the last one first. -/
structure Inv (es : List Event) (s : State) : Prop where
  ok : QueueOk s
  cur : CurOk s
  once : (s.queue ++ s.runningList).Nodup
  set : ∀ t, t ∈ s.queue ++ s.runningList ↔ IsSet t es

/-- What a step leads to: the timers that are called are set. -/
def StepOk (es : List Event) (s s' : State) : Prop :=
  Inv es s' ∧ (s'.calls = s.calls ∨ ∃ t, s'.calls = s.calls ++ [t] ∧ IsSet t es)

variable {es : List Event}

/-- The timer that comes into the queue was not in either list, and is set now. -/
theorem Queued.inv (hs : Queued s t s') (honce : (s.queue ++ s.runningList).Nodup)
    (ht : t ∉ s.queue ++ s.runningList)
    (hset : ∀ u, u = t ∨ u ∈ s.queue ++ s.runningList ↔ IsSet u es) : Inv es s' := by
  have hperm : (s'.queue ++ s'.runningList).Perm (t :: (s.queue ++ s.runningList)) := by
    rw [hs.runningList]
    exact hs.perm.append_right s.runningList
  refine ⟨hs.ok, hs.cur, hperm.nodup_iff.mpr (List.nodup_cons.mpr ⟨ht, honce⟩), fun u => ?_⟩
  rw [hperm.mem_iff, List.mem_cons]
  exact hset u

theorem Inv.callout (h : Inv es s) : StepOk es s (callout s) := by
  obtain ⟨hok, hcur, hsame | ⟨t, hqueue, hrunning, hcalls⟩⟩ := callout_spec h.ok
  · obtain ⟨hqueue, hrunning, hcalls⟩ := hsame
    refine ⟨⟨hok, hcur, ?_, ?_⟩, .inl hcalls⟩
    · rw [hqueue, hrunning]
      exact h.once
    · rw [hqueue, hrunning]
      exact h.set
  · -- the first timer goes to the running list
    have hperm : ((Timer.callout s).queue ++ (Timer.callout s).runningList).Perm
        (s.queue ++ s.runningList) := by
      rw [hqueue, hrunning]
      exact List.perm_middle
    refine ⟨⟨hok, hcur, hperm.nodup_iff.mpr h.once, fun u => ?_⟩, .inr ⟨t, hcalls, ?_⟩⟩
    · rw [hperm.mem_iff]
      exact h.set u
    · rw [← h.set t, hqueue]
      exact List.mem_append_left _ List.mem_cons_self

theorem Inv.clear (h : Inv es s) (t : ℕ) : Inv (.clear t :: es) (clear s t) := by
  have hs := clear_spec h.ok h.cur h.once t
  refine ⟨hs.ok, hs.cur, h.once.sublist (hs.queue.1.append hs.runningList.1), fun u => ?_⟩
  rw [List.mem_append, hs.queue.2, hs.runningList.2, ← or_and_right, ← List.mem_append, h.set u,
    and_comm]
  rfl

theorem inv_adjust (h : Inv es s) (hfits : freq + s.clockCurr < clockRange) :
    ∃ s', adjust s t freq = some s' ∧ Inv (.adjust t freq :: es) s' ∧ s'.calls = s.calls := by
  rw [adjust]
  by_cases hrunning : t ∈ s.runningList
  · rw [if_pos hrunning]
    refine ⟨_, rfl, ⟨⟨h.ok.sorted, h.ok.nodup, h.ok.timerTail, h.ok.timerHighTrigger, h.ok.wakeUp⟩,
      h.cur, h.once, fun u => ?_⟩, rfl⟩
    refine (h.set u).trans (or_iff_right_of_imp ?_).symm
    rintro rfl
    exact (h.set u).mp (List.mem_append_right _ hrunning)
  · rw [if_neg hrunning]
    have hc := clear_spec h.ok h.cur h.once t
    have hgone : t ∉ (clear s t).queue ++ (clear s t).runningList := by
      rw [List.mem_append, hc.queue.2, hc.runningList.2]
      rintro (⟨-, hne⟩ | ⟨-, hne⟩) <;> exact hne rfl
    obtain ⟨s', hs', hqueued⟩ := setInt_spec hc.ok hc.cur
      (fun hin => hgone (List.mem_append_left _ hin)) (by rw [hc.clockCurr]; exact hfits)
    refine ⟨s', hs', ?_, hqueued.calls.trans hc.calls⟩
    refine hqueued.inv (h.once.sublist (hc.queue.1.append hc.runningList.1)) hgone fun u => ?_
    show u = t ∨ _ ↔ u = t ∨ IsSet u es
    rw [List.mem_append, hc.queue.2, hc.runningList.2, ← or_and_right, ← List.mem_append, h.set u]
    by_cases hu : u = t
    · exact iff_of_true (.inl hu) (.inl hu)
    · rw [or_iff_right hu, or_iff_right hu, and_iff_left hu]

/-- A routine returns: its timer goes back into the queue if it is still there. -/
theorem step_returned {t : ℕ} (hthread : s.thread = .calling t) :
    step s .returned = if t ∈ s.runningList then
        (setInt { s with runningList := s.runningList.erase t } t (s.frequency t)).map callout
      else some (callout s) := by
  rw [step]
  split
  next u hu =>
    obtain rfl : u = t := Thread.calling.inj (hu.symm.trans hthread)
    rfl
  next hne => exact absurd hthread (hne t)

/-- **One step.** -/
theorem inv_step (h : Inv es s) {e : Event} (hable : Able s e) (hproper : Proper s e) :
    ∃ s', step s e = some s' ∧ StepOk (e :: es) s s' := by
  cases e with
  | set t freq =>
    obtain ⟨hqueue, hrunning, -, hfits⟩ := hproper
    obtain ⟨s', hs', hqueued⟩ := setInt_spec h.ok h.cur hqueue hfits
    have hout : t ∉ s.queue ++ s.runningList := by
      rw [List.mem_append]
      exact not_or.mpr ⟨hqueue, hrunning⟩
    exact ⟨s', hs', hqueued.inv h.once hout fun u => or_congr_right (h.set u), .inl hqueued.calls⟩
  | adjust t freq =>
    obtain ⟨s', hs', hinv, hcalls⟩ := inv_adjust h hproper
    exact ⟨s', hs', hinv, .inl hcalls⟩
  | clear t => exact ⟨_, rfl, h.clear t, .inl (clear_spec h.ok h.cur h.once t).calls⟩
  | clockUpdate clock =>
    exact ⟨_, rfl, ⟨⟨h.ok.sorted, h.ok.nodup, h.ok.timerTail, h.ok.timerHighTrigger, h.ok.wakeUp⟩,
      h.cur, h.once, h.set⟩, .inl rfl⟩
  | wakeUp =>
    exact ⟨_, rfl, ⟨⟨h.ok.sorted, h.ok.nodup, h.ok.timerTail, h.ok.timerHighTrigger, nofun⟩, nofun,
      h.once, h.set⟩, .inl rfl⟩
  | turn clock =>
    have hclock : Inv (.turn clock :: es) { s with clockCurr := clock } :=
      ⟨⟨h.ok.sorted, h.ok.nodup, h.ok.timerTail, h.ok.timerHighTrigger, h.ok.wakeUp⟩, h.cur, h.once,
        h.set⟩
    exact ⟨_, rfl, hclock.callout⟩
  | returned =>
    obtain ⟨t, hthread⟩ := hable
    have hfits := hproper t hthread
    rw [step_returned hthread]
    by_cases hrunning : t ∈ s.runningList
    · rw [if_pos hrunning]
      obtain ⟨-, hrun, hdisj⟩ := List.nodup_append.mp h.once
      have hqueue : t ∉ s.queue := fun hin => hdisj t hin t hrunning rfl
      have hperm : (t :: (s.queue ++ s.runningList.erase t)).Perm (s.queue ++ s.runningList) :=
        List.perm_middle.symm.trans ((List.perm_cons_erase hrunning).symm.append_left s.queue)
      have hnodup := hperm.nodup_iff.mpr h.once
      obtain ⟨s₁, hs₁, hqueued⟩ := @setInt_spec { s with runningList := s.runningList.erase t } t
        (s.frequency t) ⟨h.ok.sorted, h.ok.nodup, h.ok.timerTail, h.ok.timerHighTrigger, h.ok.wakeUp⟩
        h.cur hqueue hfits
      have hinv : Inv (.returned :: es) s₁ := by
        refine hqueued.inv (List.nodup_cons.mp hnodup).2 (List.nodup_cons.mp hnodup).1 fun u => ?_
        rw [← List.mem_cons, hperm.mem_iff]
        exact h.set u
      rw [hs₁, Option.map_some]
      obtain ⟨hinv', hcalls⟩ := hinv.callout
      rw [hqueued.calls] at hcalls
      exact ⟨_, rfl, hinv', hcalls⟩
    · rw [if_neg hrunning]
      have hinv : Inv (.returned :: es) s := ⟨h.ok, h.cur, h.once, h.set⟩
      exact ⟨_, rfl, hinv.callout⟩

/-- A run can go on, and keeps the invariant. -/
theorem inv_exec (h : Inv es s) {as : List Event}
    (has : Along step (fun s e => Able s e ∧ Proper s e) s as) :
    ∃ s', exec step s as = some s' ∧ Inv (as.reverse ++ es) s' := by
  induction as generalizing s es with
  | nil => exact ⟨s, rfl, h⟩
  | cons e as ih =>
    obtain ⟨⟨hable, hproper⟩, hrest⟩ := has
    obtain ⟨s₁, hs₁, hinv, -⟩ := inv_step h hable hproper
    obtain ⟨s', hs', hinv'⟩ := ih hinv (hrest s₁ hs₁)
    refine ⟨s', exec_cons_eq_some.mpr ⟨s₁, hs₁, hs'⟩, ?_⟩
    rw [List.reverse_cons, List.append_assoc, List.singleton_append]
    exact hinv'

/-- A timer is set, runs, and is cleared by its own routine. -/
def onceRun : List Event := [.set 0 5, .turn 7, .clear 0, .returned]

/-- A timer is set and cleared; to adjust it puts it back into the queue. -/
def adjustRun : List Event := [.set 0 5, .clear 0, .adjust 0 7]

end Timer
