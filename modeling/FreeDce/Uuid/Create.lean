/-
Creating UUIDs (uuid.c, uuid_i.h, uuidsys.c).

A time-based UUID consists of the time of the clock plus an adjustment, a clock
sequence number and the address of the node.  `uuid_create` reads the clock in a loop:
the adjustment tells apart the UUIDs made at one reading, and the clock sequence those
made before and after the clock was set back.

The state here is that of the process between two readings of the clock, so that one
pass of the loop is one step.
-/
import FreeDce.Lib.Runs

namespace Uuid

/-! ### Times -/

/-- `uuid_time_t`, in units of 100 ns. -/
structure UuidTime where
  lo : BitVec 32
  hi : BitVec 32
deriving DecidableEq

def UuidTime.val (t : UuidTime) : ℕ := t.hi.toNat * 2 ^ 32 + t.lo.toNat

/-- `time_cmp`. -/
def timeCmp (time1 time2 : UuidTime) : Ordering :=
  if time1.hi < time2.hi then .lt
  else if time2.hi < time1.hi then .gt
  else if time1.lo < time2.lo then .lt
  else if time2.lo < time1.lo then .gt
  else .eq

/-- `UADD_UW_2_UVLW`. -/
def uaddUw2Uvlw (add1 : BitVec 16) (add2 : UuidTime) : UuidTime :=
  let lo := add1.setWidth 32 + add2.lo
  if add2.lo.msb then
    { lo := lo, hi := if lo.msb then add2.hi else add2.hi + 1 }
  else { lo := lo, hi := add2.hi }

/-- `UADD_UVLW_2_UVLW`. -/
def uaddUvlw2Uvlw (add1 add2 : UuidTime) : UuidTime :=
  let lo := add1.lo + add2.lo
  if add1.lo.msb = add2.lo.msb then
    { lo := lo, hi := if add1.lo.msb then add1.hi + add2.hi + 1 else add1.hi + add2.hi }
  else { lo := lo, hi := if lo.msb then add1.hi + add2.hi else add1.hi + add2.hi + 1 }

/-- `uuid__uemul`. -/
def uemul (u v : BitVec 32) : UuidTime :=
  let uuid1 := u >>> 16
  let uuid2 := u &&& 0xffff
  let v1 := v >>> 16
  let v2 := v &&& 0xffff
  let temp := uuid2 * v2
  let lo := temp &&& 0xffff
  let temp := uuid1 * v2 + (temp >>> 16)
  let hi := temp >>> 16
  let temp := uuid2 * v1 + (temp &&& 0xffff)
  { lo := lo + ((temp &&& 0xffff) <<< 16), hi := hi + (uuid1 * v1 + (temp >>> 16)) }

/-- What `gettimeofday` returns, the seconds as the 32 bits that `uuid__uemul` takes. -/
structure Timeval where
  sec : BitVec 32
  usec : BitVec 32
  usec_lt : usec.toNat < 1000000

/-- `uuid__get_os_time`. -/
def getOsTime (tp : Timeval) : UuidTime :=
  uaddUvlw2Uvlw
    (uaddUvlw2Uvlw (uemul tp.usec 10) (uemul tp.sec 10000000))
    { lo := 0x13814000, hi := 0x01B21DD2 }

/-! ### The clock sequence -/

/-- The variables of `true_random`. -/
structure Rand where
  m : BitVec 32
  ia : BitVec 32
  ib : BitVec 32
  irand : BitVec 32

def trueRandom (r : Rand) : BitVec 16 × Rand :=
  let m := r.m + 7
  let ia := r.ia + 1907
  let ib := r.ib + 73939
  let m := if 9973 ≤ m then m - 9871 else m
  let ia := if 99991 ≤ ia then ia - 89989 else ia
  let ib := if 224729 ≤ ib then ib - 96233 else ib
  let irand := r.irand * m + ia + ib
  (((irand >>> 16) ^^^ (irand &&& 0x3fff)).setWidth 16,
    { m := m, ia := ia, ib := ib, irand := irand })

/-- `CLOCK_SEQ_BUMP`. -/
def clockSeqBump (seq : BitVec 16) : BitVec 16 := (seq + 1) &&& 0x3fff

/-- `new_clock_seq`. -/
def newClockSeq (clkseq : BitVec 16) (r : Rand) : BitVec 16 × Rand :=
  let (clkseq, r) := if clkseq = 0 then trueRandom r else (clkseq, r)
  let clkseq := clockSeqBump clkseq
  (if clkseq = 0 then clkseq + 1 else clkseq, r)

/-! ### UUIDs -/

/-- `uuid_t`. -/
structure UuidT where
  timeLow : BitVec 32
  timeMid : BitVec 16
  timeHiAndVersion : BitVec 16
  clockSeqHiAndReserved : BitVec 8
  clockSeqLow : BitVec 8
  node : BitVec 48
deriving DecidableEq

/-- The UUID of a time, a clock sequence number and an address. -/
def construct (timeNow : UuidTime) (clockSeq : BitVec 16) (eaddr : BitVec 48) : UuidT where
  timeLow := timeNow.lo
  timeMid := (timeNow.hi &&& 0x0000ffff).setWidth 16
  timeHiAndVersion := ((timeNow.hi &&& 0x0fff0000) >>> 16).setWidth 16 ||| 0x1000
  clockSeqHiAndReserved := ((clockSeq &&& 0x3f00) >>> 8).setWidth 8 ||| 0x80
  clockSeqLow := (clockSeq &&& 0xff).setWidth 8
  node := eaddr

def maxTimeAdjust : BitVec 16 := 0x7fff

/-- The variables of the module, with `got_no_time` of the call in progress and the
UUIDs of the calls that have returned. -/
structure State where
  timeLast : UuidTime
  timeAdjust : BitVec 16
  clockSeq : BitVec 16
  rand : Rand
  gotNoTime : Bool
  created : List UuidT

/-- `init`.  The generator is seeded with the time and the process id. -/
def init (tp : Timeval) (seed : Rand) : State :=
  let (clockSeq, r) := trueRandom seed
  { timeLast := getOsTime tp, timeAdjust := 0, clockSeq := clockSeq, rand := r
    gotNoTime := false, created := [] }

/-- After the loop: `uuid_create` returns, and the next call begins. -/
def finishCall (eaddr : BitVec 48) (timeNow : UuidTime) (s : State) : State :=
  let time := if s.timeAdjust ≠ 0 then uaddUw2Uvlw s.timeAdjust timeNow else timeNow
  { s with
    timeLast := timeNow
    gotNoTime := false
    created := s.created ++ [construct time s.clockSeq eaddr] }

/-- The switch in the loop. -/
def compareTime (timeNow : UuidTime) (s : State) : State :=
  match timeCmp timeNow s.timeLast with
  | .lt =>
    let (clockSeq, r) := newClockSeq s.clockSeq s.rand
    { s with clockSeq := clockSeq, rand := r, timeAdjust := 0 }
  | .gt => { s with timeAdjust := 0 }
  | .eq =>
    if s.timeAdjust = maxTimeAdjust then { s with gotNoTime := true }
    else { s with timeAdjust := s.timeAdjust + 1 }

/-- One pass of the loop of `uuid_create`. -/
def onReading (eaddr : BitVec 48) (s : State) (tp : Timeval) : State :=
  let timeNow := getOsTime tp
  let s := compareTime timeNow s
  if s.gotNoTime then s else finishCall eaddr timeNow s

/-- The process reads the clock. -/
def step (eaddr : BitVec 48) (s : State) (tp : Timeval) : Option State :=
  some (onReading eaddr s tp)

end Uuid
