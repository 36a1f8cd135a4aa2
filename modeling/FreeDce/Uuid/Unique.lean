/-
Uniqueness of UUIDs.

Two defects stand in the way.  The adjustment of one reading borrows from the ticks
that follow, and `uuid_create` does not see it when the clock has not moved past
what was borrowed; and `got_no_time` is never reset, so a call that has to wait once
waits for ever.  `created_good_iff` says that they are the only ones: as long as the
clock is set back fewer times than there are clock sequence numbers, UUIDs are unique
and calls return exactly in the runs that avoid the two.
-/
import FreeDce.Uuid.Time

namespace Uuid

open Runs

variable {e : BitVec 48} {s s' : State} {tp : Timeval} {tps : List Timeval} {n : ℕ}

/-! ### One reading -/

theorem step_eq_some : step e s tp = some s' ↔ onReading e s tp = s' := by
  rw [step, Option.some_inj]

/-- The time of the UUID made at a reading with an adjustment. -/
theorem adjusted_val (tp : Timeval) {a : BitVec 16} (ha : a.toNat ≤ maxTimeAdjust.toNat) :
    (if a ≠ 0 then uaddUw2Uvlw a (getOsTime tp) else getOsTime tp).val
      = (getOsTime tp).val + a.toNat := by
  have hlt := getOsTime_lt tp
  have hmax : maxTimeAdjust.toNat = 0x7fff := rfl
  split_ifs with hzero
  · exact uaddUw2Uvlw_val (by omega)
  · rw [not_not.mp hzero]
    exact (Nat.add_zero _).symm

/-- A call that waits goes on waiting, and makes nothing. -/
theorem onReading_waiting (tp : Timeval) (hwait : s.gotNoTime = true) :
    (onReading e s tp).gotNoTime = true ∧ (onReading e s tp).created = s.created := by
  have hcmp : (compareTime (getOsTime tp) s).gotNoTime = true ∧
      (compareTime (getOsTime tp) s).created = s.created := by
    unfold compareTime
    split
    · exact ⟨hwait, rfl⟩
    · exact ⟨hwait, rfl⟩
    · split
      · exact ⟨rfl, rfl⟩
      · exact ⟨hwait, rfl⟩
  rw [onReading, if_pos hcmp.1]
  exact hcmp

/-- The call in progress has returned with the UUID of a time. -/
structure Made (e : BitVec 48) (s s' : State) (t : UuidTime) : Prop where
  gotNoTime : s'.gotNoTime = false
  created : s'.created = s.created ++ [construct t s'.clockSeq e]
  lt : t.val < 2 ^ 60

/-- The call returns with the adjustment that the switch has left. -/
theorem finishCall_made (tp : Timeval) (ha : s.timeAdjust.toNat ≤ maxTimeAdjust.toNat) :
    ∃ t, Made e s (finishCall e (getOsTime tp) s) t ∧
      t.val = (getOsTime tp).val + s.timeAdjust.toNat := by
  have hlt := getOsTime_lt tp
  have hmax : maxTimeAdjust.toNat = 0x7fff := rfl
  have hval := adjusted_val tp ha
  exact ⟨_, ⟨rfl, rfl, by rw [hval]; omega⟩, hval⟩

theorem onReading_lt (hwait : s.gotNoTime = false) (hlt : (getOsTime tp).val < s.timeLast.val) :
    ∃ t, Made e s (onReading e s tp) t ∧ t.val = (getOsTime tp).val ∧
      (onReading e s tp).timeLast = getOsTime tp ∧
      (onReading e s tp).timeAdjust = 0 ∧
      (onReading e s tp).clockSeq = (newClockSeq s.clockSeq s.rand).1 := by
  have hcmp : compareTime (getOsTime tp) s = { s with
      clockSeq := (newClockSeq s.clockSeq s.rand).1
      rand := (newClockSeq s.clockSeq s.rand).2
      timeAdjust := 0 } := by
    rw [compareTime, timeCmp_lt_iff.mpr hlt]
  rw [onReading, hcmp]
  dsimp only
  rw [hwait, if_neg Bool.false_ne_true]
  obtain ⟨t, ht, hval⟩ := finishCall_made (e := e) tp (s := { s with
    clockSeq := (newClockSeq s.clockSeq s.rand).1
    rand := (newClockSeq s.clockSeq s.rand).2
    timeAdjust := 0, gotNoTime := false })
    (show (0 : BitVec 16).toNat ≤ maxTimeAdjust.toNat by decide)
  exact ⟨t, ⟨ht.gotNoTime, ht.created, ht.lt⟩, hval.trans (Nat.add_zero _), rfl, rfl, rfl⟩

theorem onReading_gt (hwait : s.gotNoTime = false) (hgt : s.timeLast.val < (getOsTime tp).val) :
    ∃ t, Made e s (onReading e s tp) t ∧ t.val = (getOsTime tp).val ∧
      (onReading e s tp).timeLast = getOsTime tp ∧
      (onReading e s tp).timeAdjust = 0 ∧
      (onReading e s tp).clockSeq = s.clockSeq := by
  have hcmp : compareTime (getOsTime tp) s = { s with timeAdjust := 0 } := by
    rw [compareTime, timeCmp_gt_iff.mpr hgt]
  rw [onReading, hcmp]
  dsimp only
  rw [hwait, if_neg Bool.false_ne_true]
  obtain ⟨t, ht, hval⟩ := finishCall_made (e := e) tp
    (s := { s with timeAdjust := 0, gotNoTime := false })
    (show (0 : BitVec 16).toNat ≤ maxTimeAdjust.toNat by decide)
  exact ⟨t, ⟨ht.gotNoTime, ht.created, ht.lt⟩, hval.trans (Nat.add_zero _), rfl, rfl, rfl⟩

theorem onReading_eq_max (heq : (getOsTime tp).val = s.timeLast.val)
    (hmax : s.timeAdjust = maxTimeAdjust) :
    onReading e s tp = { s with gotNoTime := true } := by
  have hcmp : compareTime (getOsTime tp) s = { s with gotNoTime := true } := by
    rw [compareTime, timeCmp_eq_iff.mpr heq]
    exact if_pos hmax
  rw [onReading, hcmp]
  exact if_pos rfl

theorem onReading_eq (hwait : s.gotNoTime = false) (heq : (getOsTime tp).val = s.timeLast.val)
    (hmax : s.timeAdjust ≠ maxTimeAdjust) (ha : s.timeAdjust.toNat ≤ maxTimeAdjust.toNat) :
    ∃ t, Made e s (onReading e s tp) t ∧
      t.val = (getOsTime tp).val + (s.timeAdjust.toNat + 1) ∧
      (onReading e s tp).timeLast = getOsTime tp ∧
      (onReading e s tp).timeAdjust.toNat = s.timeAdjust.toNat + 1 ∧
      s.timeAdjust.toNat + 1 ≤ maxTimeAdjust.toNat ∧
      (onReading e s tp).clockSeq = s.clockSeq := by
  have hcmp : compareTime (getOsTime tp) s = { s with timeAdjust := s.timeAdjust + 1 } := by
    rw [compareTime, timeCmp_eq_iff.mpr heq]
    exact if_neg hmax
  have hne : s.timeAdjust.toNat ≠ maxTimeAdjust.toNat := fun h => hmax (BitVec.eq_of_toNat_eq h)
  have hval : maxTimeAdjust.toNat = 0x7fff := rfl
  have hadd : (s.timeAdjust + 1).toNat = s.timeAdjust.toNat + 1 := by
    rw [BitVec.toNat_add]
    change (s.timeAdjust.toNat + 1) % 2 ^ 16 = _
    omega
  rw [onReading, hcmp]
  dsimp only
  rw [hwait, if_neg Bool.false_ne_true]
  obtain ⟨t, ht, htval⟩ := finishCall_made (e := e) tp
    (s := { s with timeAdjust := s.timeAdjust + 1, gotNoTime := false }) (by dsimp only; omega)
  dsimp only at htval
  rw [hadd] at htval
  exact ⟨t, ⟨ht.gotNoTime, ht.created, ht.lt⟩, htval, rfl, hadd, by omega, rfl⟩

/-! ### The clock sequence -/

theorem newClockSeq_spec (c : BitVec 16) (r : Rand) :
    0 < (newClockSeq c r).1.toNat ∧ (newClockSeq c r).1.toNat < 2 ^ 14 ∧
      (c.toNat % 2 ^ 14 ≠ 0 → (newClockSeq c r).1.toNat = c.toNat % 2 ^ 14 % 16383 + 1) := by
  have hbump (d : BitVec 16) : (clockSeqBump d).toNat = (d.toNat + 1) % 2 ^ 14 := by
    rw [clockSeqBump, BitVec.toNat_and, BitVec.toNat_add]
    have hand : (d.toNat + 1) % 2 ^ 16 &&& 16383 = (d.toNat + 1) % 2 ^ 16 % 2 ^ 14 :=
      Nat.and_two_pow_sub_one_eq_mod _ 14
    change (d.toNat + 1) % 2 ^ 16 &&& 16383 = _
    rw [hand]
    omega
  have hone (d : BitVec 16) : 0 < (if d = 0 then d + 1 else d).toNat ∧
      (d.toNat ≠ 0 → (if d = 0 then d + 1 else d) = d) ∧
      (d.toNat = 0 → (if d = 0 then d + 1 else d).toNat = 1) := by
    by_cases hd : d = 0
    · subst hd
      decide
    · have hne : d.toNat ≠ 0 := fun h => hd (BitVec.eq_of_toNat_eq h)
      rw [if_neg hd]
      exact ⟨Nat.pos_of_ne_zero hne, fun _ => rfl, fun h => absurd h hne⟩
  set d := (if c = 0 then trueRandom r else (c, r)).1 with hd
  have hnew : (newClockSeq c r).1 = if clockSeqBump d = 0 then clockSeqBump d + 1 else clockSeqBump d :=
    rfl
  obtain ⟨hpos, hkeep, hzero⟩ := hone (clockSeqBump d)
  have hbd := hbump d
  rw [hnew]
  refine ⟨hpos, ?_, fun hc => ?_⟩
  · by_cases hz : (clockSeqBump d).toNat = 0
    · rw [hzero hz]
      norm_num
    · rw [hkeep hz]
      omega
  · have hdc : d = c := by
      have hc0 : c ≠ 0 := by
        intro h
        rw [h] at hc
        exact hc rfl
      rw [hd, if_neg hc0]
    rw [hdc] at hbd hzero hkeep ⊢
    by_cases hz : (clockSeqBump c).toNat = 0
    · rw [hzero hz]
      omega
    · rw [hkeep hz]
      omega

theorem UuidT.clockSeq_lt (u : UuidT) : u.clockSeq < 2 ^ 14 := by
  have h := u.clockSeqLow.isLt
  unfold UuidT.clockSeq
  omega

/-- How many numbers the clock sequence has moved on from `y` to `x`. -/
def seqDist (y x : ℕ) : ℕ := (x + 16383 - y) % 16383

/-! ### UUIDs made so far -/

/-- The UUIDs made are different, and the next ones will be: those of the current clock
sequence number lie in the past, and the others have numbers that were left at most `n`
steps ago. -/
structure Fresh (s : State) (n : ℕ) : Prop where
  adjust_le : s.timeAdjust.toNat ≤ maxTimeAdjust.toNat
  nodup : s.created.Nodup
  past : ∀ u ∈ s.created, u.clockSeq = s.clockSeq.toNat % 2 ^ 14 →
    u.time ≤ s.timeLast.val + s.timeAdjust.toNat
  used : ∀ u ∈ s.created, u.clockSeq ≠ 0 → s.clockSeq.toNat % 2 ^ 14 ≠ 0 ∧
    seqDist u.clockSeq (s.clockSeq.toNat % 2 ^ 14) ≤ n

theorem Fresh.mono {m : ℕ} (F : Fresh s n) (h : n ≤ m) : Fresh s m where
  adjust_le := F.adjust_le
  nodup := F.nodup
  past := F.past
  used u hu hne := ⟨(F.used u hu hne).1, (F.used u hu hne).2.trans h⟩

theorem init_fresh (tp : Timeval) (seed : Rand) : Fresh (init tp seed) 0 where
  adjust_le := Nat.zero_le _
  nodup := List.nodup_nil
  past _ hu := absurd hu List.not_mem_nil
  used _ hu := absurd hu List.not_mem_nil

/-- A UUID of the current clock sequence number and a time that lies ahead. -/
theorem Fresh.made {t : UuidTime} (F : Fresh s n) (h : Made e s s' t)
    (hseq : s'.clockSeq = s.clockSeq)
    (hadj : s'.timeAdjust.toNat ≤ maxTimeAdjust.toNat)
    (ht : t.val = s'.timeLast.val + s'.timeAdjust.toNat)
    (hpast : s.timeLast.val + s.timeAdjust.toNat < t.val) : Fresh s' n := by
  have htime := construct_time h.lt s'.clockSeq e
  have hnum := construct_clockSeq t s'.clockSeq e
  refine ⟨hadj, ?_, fun u hu hu' => ?_, fun u hu hne => ?_⟩
  · rw [h.created, List.nodup_append]
    refine ⟨F.nodup, List.nodup_singleton _, fun u hu v hv huv => ?_⟩
    rw [List.mem_singleton] at hv
    subst hv huv
    have hle := F.past _ hu (by rw [hnum, hseq])
    omega
  · rw [h.created, List.mem_append, List.mem_singleton] at hu
    cases hu with
    | inl hold =>
      have hle := F.past u hold (by rw [hu', hseq])
      omega
    | inr hnew =>
      rw [hnew, htime, ht]
  · rw [h.created, List.mem_append, List.mem_singleton] at hu
    cases hu with
    | inl hold =>
      rw [hseq]
      exact F.used u hold hne
    | inr hnew =>
      rw [hnew, hnum] at hne ⊢
      refine ⟨hne, ?_⟩
      unfold seqDist
      omega

/-- A UUID of the next clock sequence number. -/
theorem Fresh.madeNext {t : UuidTime} (F : Fresh s n) (h : Made e s s' t)
    (hseq : s'.clockSeq = (newClockSeq s.clockSeq s.rand).1) (hadj : s'.timeAdjust = 0)
    (ht : t.val = s'.timeLast.val) (hn : n + 1 < 16383) : Fresh s' (n + 1) := by
  obtain ⟨hpos, hlt, hnext⟩ := newClockSeq_spec s.clockSeq s.rand
  rw [← hseq] at hpos hlt hnext
  have htime := construct_time h.lt s'.clockSeq e
  have hnum := construct_clockSeq t s'.clockSeq e
  have hmod : s'.clockSeq.toNat % 2 ^ 14 = s'.clockSeq.toNat := Nat.mod_eq_of_lt hlt
  -- the numbers in use have moved one step further away, but not all the way round
  have hold : ∀ u ∈ s.created, u.clockSeq ≠ s'.clockSeq.toNat ∧
      (u.clockSeq ≠ 0 → seqDist u.clockSeq s'.clockSeq.toNat ≤ n + 1) := by
    intro u hu
    by_cases hzero : u.clockSeq = 0
    · exact ⟨by omega, fun hne => absurd hzero hne⟩
    · obtain ⟨hne, hdist⟩ := F.used u hu hzero
      have hult := u.clockSeq_lt
      have hstep := hnext hne
      unfold seqDist at hdist ⊢
      refine ⟨by omega, fun _ => by omega⟩
  refine ⟨by rw [hadj]; exact Nat.zero_le _, ?_, fun u hu hu' => ?_, fun u hu hne => ?_⟩
  · rw [h.created, List.nodup_append]
    refine ⟨F.nodup, List.nodup_singleton _, fun u hu v hv huv => ?_⟩
    rw [List.mem_singleton] at hv
    subst hv huv
    exact (hold _ hu).1 (by rw [hnum, hmod])
  · rw [h.created, List.mem_append, List.mem_singleton] at hu
    cases hu with
    | inl hmem => exact absurd (hu'.trans hmod) (hold u hmem).1
    | inr hnew =>
      rw [hnew, htime, ht]
      exact Nat.le_add_right _ _
  · rw [hmod]
    rw [h.created, List.mem_append, List.mem_singleton] at hu
    cases hu with
    | inl hmem => exact ⟨hpos.ne', (hold u hmem).2 hne⟩
    | inr hnew =>
      rw [hnew, hnum, hmod]
      refine ⟨hpos.ne', ?_⟩
      unfold seqDist
      omega

/-! ### The condition -/

/-- A reading past `time_last` is past the adjustments made at `time_last` too, and finds
no call that waits. -/
def Past (s : State) (tp : Timeval) : Prop :=
  s.timeLast.val < (getOsTime tp).val →
    s.gotNoTime = false ∧ s.timeLast.val + s.timeAdjust.toNat < (getOsTime tp).val

/-- A reading past `time_last` lets the call in progress return. -/
def Returns (e : BitVec 48) (s : State) (tp : Timeval) : Prop :=
  s.timeLast.val < (getOsTime tp).val → (onReading e s tp).gotNoTime = false

/-- How many times the clock steps back, from a reading on. -/
def backsteps : Timeval → List Timeval → ℕ
  | _, [] => 0
  | last, tp :: tps =>
    (if (getOsTime tp).val < (getOsTime last).val then 1 else 0) + backsteps tp tps

/-- The process after a list of readings. -/
def run (e : BitVec 48) (s : State) (tps : List Timeval) : State :=
  tps.foldl (onReading e) s

theorem run_waiting (hwait : s.gotNoTime = true) :
    (run e s tps).gotNoTime = true ∧ (run e s tps).created = s.created := by
  induction tps generalizing s with
  | nil => exact ⟨hwait, rfl⟩
  | cons tp tps ih =>
    obtain ⟨hwait', hcreated⟩ := onReading_waiting (e := e) tp hwait
    obtain ⟨hend, hsame⟩ := ih hwait'
    exact ⟨hend, hsame.trans hcreated⟩

/-- A step that the condition allows keeps UUIDs apart. -/
theorem Fresh.step (F : Fresh s n) (hwait : s.gotNoTime = false) (hpast : Past s tp)
    (hn : n + 1 < 16383) :
    Fresh (onReading e s tp)
        (n + if (getOsTime tp).val < s.timeLast.val then 1 else 0) ∧
      ((onReading e s tp).gotNoTime = false → (onReading e s tp).timeLast = getOsTime tp) := by
  rcases lt_trichotomy (getOsTime tp).val s.timeLast.val with hlt | heq | hgt
  · obtain ⟨t, hmade, hval, hlast, hadj, hseq⟩ := onReading_lt (e := e) hwait hlt
    rw [if_pos hlt]
    exact ⟨F.madeNext hmade hseq hadj (by rw [hval, hlast]) hn, fun _ => hlast⟩
  · rw [if_neg (by omega)]
    by_cases hmax : s.timeAdjust = maxTimeAdjust
    · rw [onReading_eq_max heq hmax]
      exact ⟨⟨F.adjust_le, F.nodup, F.past, F.used⟩, fun h => absurd h.symm Bool.false_ne_true⟩
    · obtain ⟨t, hmade, hval, hlast, hadj, hle, hseq⟩ :=
        onReading_eq (e := e) hwait heq hmax F.adjust_le
      refine ⟨F.made hmade hseq (by omega) (by rw [hval, hlast, hadj]) (by omega), fun _ => hlast⟩
  · obtain ⟨t, hmade, hval, hlast, hadj, hseq⟩ := onReading_gt (e := e) hwait hgt
    have hadj0 : (onReading e s tp).timeAdjust.toNat = 0 := by rw [hadj]; rfl
    have hahead := (hpast hgt).2
    rw [if_neg (by omega)]
    exact ⟨F.made hmade hseq (by omega) (by rw [hval, hlast, hadj0, Nat.add_zero]) (by omega),
      fun _ => hlast⟩

theorem run_fresh {last : Timeval} (F : Fresh s n)
    (hlast : s.gotNoTime = false → s.timeLast = getOsTime last)
    (hn : n + backsteps last tps + 1 < 16383)
    (hpast : Along (step e) Past s tps) :
    (run e s tps).created.Nodup ∧ Along (step e) (Returns e) s tps := by
  induction tps generalizing s n last with
  | nil => exact ⟨F.nodup, trivial⟩
  | cons tp tps ih =>
    obtain ⟨hhead, htail⟩ := along_cons.mp hpast
    have hrest := htail _ rfl
    cases hwait : s.gotNoTime with
    | true =>
      -- nothing is made any more, and no reading is past `time_last`
      refine ⟨?_, ?_⟩
      · rw [(run_waiting hwait).2]
        exact F.nodup
      · refine hpast.mono fun s tp h hgt => ?_
        obtain ⟨hnowait, -⟩ := h hgt
        obtain ⟨t, hmade, -⟩ := onReading_gt (e := e) hnowait hgt
        exact hmade.gotNoTime
    | false =>
      rw [backsteps, ← hlast hwait] at hn
      obtain ⟨F', hlast'⟩ := F.step (e := e) hwait hhead (by omega)
      obtain ⟨hnodup, hreturns⟩ := ih F' hlast' (by omega) hrest
      refine ⟨hnodup, ⟨fun hgt => ?_, fun s' hs' => ?_⟩⟩
      · obtain ⟨t, hmade, -⟩ := onReading_gt (e := e) hwait hgt
        exact hmade.gotNoTime
      · cases hs'
        exact hreturns

/-! ### Necessity -/

/-- All adjustments up to the current one have been used. -/
structure Dense (e : BitVec 48) (s : State) : Prop where
  adjust_le : s.timeAdjust.toNat ≤ maxTimeAdjust.toNat
  made : ∀ t : UuidTime, s.timeLast.val < t.val →
    t.val ≤ s.timeLast.val + s.timeAdjust.toNat → construct t s.clockSeq e ∈ s.created

theorem init_dense (tp : Timeval) (seed : Rand) : Dense e (init tp seed) where
  adjust_le := Nat.zero_le _
  made t hlt hle := by
    have hzero : (init tp seed).timeAdjust.toNat = 0 := rfl
    omega

theorem UuidTime.val_injective {t u : UuidTime} (h : t.val = u.val) : t = u := by
  have ht := t.lo.isLt
  have hu := u.lo.isLt
  unfold UuidTime.val at h
  obtain ⟨tlo, thi⟩ := t
  obtain ⟨ulo, uhi⟩ := u
  dsimp only at h ht hu
  rw [UuidTime.mk.injEq]
  exact ⟨BitVec.eq_of_toNat_eq (by omega), BitVec.eq_of_toNat_eq (by omega)⟩

theorem dense_of_adjust_zero (h : s.timeAdjust = 0) : Dense e s where
  adjust_le := by
    rw [h]
    exact Nat.zero_le _
  made t hlt hle := by
    have hzero : s.timeAdjust.toNat = 0 := by rw [h]; rfl
    omega

theorem Dense.step (D : Dense e s) (hwait : s.gotNoTime = false) :
    Dense e (onReading e s tp) := by
  rcases lt_trichotomy (getOsTime tp).val s.timeLast.val with hlt | heq | hgt
  · obtain ⟨-, -, -, -, hadj, -⟩ := onReading_lt (e := e) hwait hlt
    exact dense_of_adjust_zero hadj
  · by_cases hmax : s.timeAdjust = maxTimeAdjust
    · rw [onReading_eq_max heq hmax]
      exact ⟨D.adjust_le, D.made⟩
    · obtain ⟨t, hmade, hval, hlast, hadj, hle, hseq⟩ :=
        onReading_eq (e := e) hwait heq hmax D.adjust_le
      refine ⟨by omega, fun u hlt hule => ?_⟩
      rw [hlast] at hlt hule
      rw [hmade.created, List.mem_append, List.mem_singleton]
      by_cases hnew : u.val = t.val
      · exact Or.inr (by rw [UuidTime.val_injective hnew])
      · refine Or.inl ?_
        rw [hseq]
        exact D.made u (by omega) (by omega)
  · obtain ⟨-, -, -, -, hadj, -⟩ := onReading_gt (e := e) hwait hgt
    exact dense_of_adjust_zero hadj

/-- What was made stays made. -/
theorem run_created (tps : List Timeval) : ∃ us, (run e s tps).created = s.created ++ us := by
  induction tps generalizing s with
  | nil => exact ⟨[], (List.append_nil _).symm⟩
  | cons tp tps ih =>
    obtain ⟨us, hus⟩ := ih (s := onReading e s tp)
    have hhead : ∃ vs, (onReading e s tp).created = s.created ++ vs := by
      have hcmp : (compareTime (getOsTime tp) s).created = s.created := by
        unfold compareTime
        split
        · rfl
        · rfl
        · split <;> rfl
      unfold onReading
      dsimp only
      split
      · exact ⟨[], by rw [hcmp, List.append_nil]⟩
      · exact ⟨_, by rw [finishCall, hcmp]⟩
    obtain ⟨vs, hvs⟩ := hhead
    refine ⟨vs ++ us, ?_⟩
    rw [← List.append_assoc, ← hvs]
    exact hus

theorem past_of_waiting (hwait : s.gotNoTime = true)
    (hreturns : Along (Uuid.step e) (Returns e) s tps) :
    Along (Uuid.step e) Past s tps := by
  induction tps generalizing s with
  | nil => trivial
  | cons tp tps ih =>
    obtain ⟨hhead, htail⟩ := along_cons.mp hreturns
    obtain ⟨hwait', -⟩ := onReading_waiting (e := e) tp hwait
    refine ⟨fun hgt => ?_, fun s' hs' => ?_⟩
    · exact absurd (hhead hgt) (by rw [hwait']; exact Bool.noConfusion)
    · cases hs'
      exact ih hwait' (htail _ rfl)

theorem past_of_run (D : Dense e s) (hnodup : (run e s tps).created.Nodup)
    (hreturns : Along (Uuid.step e) (Returns e) s tps) : Along (Uuid.step e) Past s tps := by
  induction tps generalizing s with
  | nil => trivial
  | cons tp tps ih =>
    obtain ⟨hhead, htail⟩ := along_cons.mp hreturns
    have hrest := htail _ rfl
    cases hwait : s.gotNoTime with
    | true => exact past_of_waiting hwait hreturns
    | false =>
      refine ⟨fun hgt => ⟨hwait, ?_⟩, fun s' hs' => ?_⟩
      · by_contra hle
        obtain ⟨t, hmade, hval, -, -, hseq⟩ := onReading_gt (e := e) hwait hgt
        have hmem := D.made t (by omega) (by omega)
        obtain ⟨us, hus⟩ := run_created (e := e) (s := onReading e s tp) tps
        have hsplit : (onReading e s tp).created.Nodup := by
          have hend : ((onReading e s tp).created ++ us).Nodup := by
            rw [← hus]
            exact hnodup
          exact hend.of_append_left
        rw [hmade.created, List.nodup_append, hseq] at hsplit
        exact hsplit.2.2 _ hmem _ (List.mem_singleton_self _) rfl
      · cases hs'
        exact ih (D.step hwait) hnodup hrest

/-! ### Main results -/

/-- UUIDs are unique and calls return in exactly those runs in which every reading past
`time_last` is past the adjustments too and finds no call that waits. -/
theorem created_good_iff (e : BitVec 48) (tp : Timeval) (seed : Rand) (tps : List Timeval)
    (hback : backsteps tp tps < 2 ^ 14 - 2) :
    (run e (init tp seed) tps).created.Nodup ∧
        Along (step e) (Returns e) (init tp seed) tps ↔
      Along (step e) Past (init tp seed) tps := by
  constructor
  · rintro ⟨hnodup, hreturns⟩
    exact past_of_run (init_dense tp seed) hnodup hreturns
  · intro hpast
    exact run_fresh (init_fresh tp seed) (fun _ => rfl) (by omega) hpast

instance Past.decidable (s : State) (tp : Timeval) : Decidable (Past s tp) :=
  inferInstanceAs (Decidable (_ → _))

/-- The generator as it is set up when the seed is zero. -/
def rand0 : Rand := { m := 971, ia := 11113, ib := 104322, irand := 4181 }

/-- A time of day within one second. -/
def usecs (usec : Fin 1000000) : Timeval where
  sec := 1000000000
  usec := BitVec.ofNat 32 usec
  usec_lt := by
    rw [BitVec.toNat_ofNat]
    omega

theorem created_good_iff_usecs :
    (run 0 (init (usecs 0) rand0) [usecs 0, usecs 1, usecs 0]).created.Nodup ∧
      Along (step 0) (Returns 0) (init (usecs 0) rand0) [usecs 0, usecs 1, usecs 0] :=
  (created_good_iff 0 (usecs 0) rand0 [usecs 0, usecs 1, usecs 0] (by decide)).mpr
    (by decide)

/-- Ten calls at one reading use up the ticks of a whole microsecond, and the first call
at the next reading makes the last of their UUIDs again. -/
theorem created_twice :
    backsteps (usecs 0) (List.replicate 10 (usecs 0) ++ [usecs 1]) < 2 ^ 14 - 2 ∧
      ¬ (run 0 (init (usecs 0) rand0) (List.replicate 10 (usecs 0) ++ [usecs 1])).created.Nodup := by
  decide +kernel

end Uuid
