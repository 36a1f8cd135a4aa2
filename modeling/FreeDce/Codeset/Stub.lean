/-
Conversion of bytes to and from the code set of the network (cs_s_stub.c).

A routine copies the bytes, if the network has the local code set, or converts them by
`stub_conversion`; either way it measures a buffer to tell the length.

* `toNetcs_copy_writes`, `fromNetcs_copy_writes` — a copy goes one element too far, and on the
  receiving side into the wrong buffer;
* `strlen_succ_eq_length_iff` — the measured length is the number of elements for a text with its
  only zero at the end;
* `comesBack_iff` — when bytes that are sent come back.
-/
import FreeDce.Codeset.Eval

namespace Codeset

/-! ### Buffers -/

inductive Buffer
  | wdata
  | ldata
deriving DecidableEq

/-- What the two pointers lead to, and what lies behind it (zeros behind the lists); and where it
was written. -/
structure Buffers where
  wdata : List UInt8
  ldata : List UInt8
  writes : List (Buffer × ℕ) := []
deriving DecidableEq

/-- One byte of a memory is stored. -/
def store (mem : List UInt8) (i : ℕ) (v : UInt8) : List UInt8 :=
  if i < mem.length then mem.set i v else mem ++ (List.replicate (i - mem.length) 0 ++ [v])

/-- `strlen`. -/
def strlen (mem : List UInt8) : ℕ := (mem.takeWhile (· ≠ 0)).length

/-- `*wdata_temp++ = *ldata_temp++`, `n` times from the element `i` on. -/
def copyLoop : ℕ → ℕ → Buffers → Buffers
  | 0, _, b => b
  | n + 1, i, b =>
    copyLoop n (i + 1) { b with
      wdata := store b.wdata i (b.ldata.getD i 0)
      writes := (.wdata, i) :: b.writes }

/-- The bytes of a conversion are put into a buffer. -/
def overwrite (mem new : List UInt8) : List UInt8 := new ++ mem.drop new.length

/-! ### The routines -/

/-- What is attached to the client's binding: `RPC_CS_EVAL_METHOD` with a method, or some other
number in its place, `RPC_CS_EVAL_TAGS`, or another key. -/
inductive CsEval
  | method (m : Option Method) (clientTag : BitVec 32)
  | tags (clientTag : BitVec 32)
  | otherKey

/-- A side.  The server's code set is that of its locale, if the registry knows it. -/
inductive Side
  | client (csEval : CsEval)
  | server (current : Option (BitVec 32))

/-- What a routine does; `convert` with the local code set. -/
inductive Action
  | copy
  | convert (own : BitVec 32)
  | incompatible
  | leave
deriving DecidableEq

def byTag (tag own : BitVec 32) : Action := if tag = own then .copy else .convert own

/-- The branches of `cs_byte_to_netcs`. -/
def toAction (tag : BitVec 32) : Side → Action
  | .client (.method (some m) clientTag) =>
    match m with
    | .noConversion | .rmirModel | .smirModel => .copy
    | .cmirModel | .intermediateModel | .universalModel => .convert clientTag
  | .client (.method none _) => .incompatible
  | .client (.tags clientTag) => byTag tag clientTag
  | .client .otherKey => .incompatible
  | .server none => .leave
  | .server (some current) => byTag tag current

/-- The branches of `cs_byte_from_netcs`. -/
def fromAction (tag : BitVec 32) : Side → Action
  | .client (.method (some m) clientTag) =>
    match m with
    | .noConversion | .smirModel => .copy
    | .cmirModel | .rmirModel | .intermediateModel | .universalModel => .convert clientTag
  | .client (.method none _) => .incompatible
  | .client (.tags clientTag) => byTag tag clientTag
  | .client .otherKey => .incompatible
  | .server none => .leave
  | .server (some current) => byTag tag current

inductive StubStatus
  | ok
  | ssIncompatibleCodesets
deriving DecidableEq

/-- The status, the length that was stored through the pointer, and the buffers. -/
structure StubResult where
  status : StubStatus
  len : Option ℕ
  buffers : Buffers

/-- `stub_conversion` between two code sets.  There and back it is the identity. -/
structure Conversion where
  conv : BitVec 32 → BitVec 32 → List UInt8 → List UInt8
  conv_conv : ∀ a b bytes, conv b a (conv a b bytes) = bytes

variable (K : Conversion)

/-- `cs_byte_to_netcs`; `wantsLen` says that the pointer to the length is not null. -/
def csByteToNetcs (side : Side) (tag : BitVec 32) (lDataLen : ℕ) (wantsLen : Bool) (b : Buffers) :
    StubResult :=
  match toAction tag side with
  | .copy =>
    let b := copyLoop (lDataLen + 1) 0 b
    ⟨.ok, if wantsLen then some (strlen b.wdata + 1) else none, b⟩
  | .convert own =>
    let new := K.conv own tag (b.ldata.take lDataLen)
    let b := { b with
      wdata := overwrite b.wdata new
      writes := (List.range new.length).map (Prod.mk .wdata) ++ b.writes }
    ⟨.ok, if wantsLen then some (strlen b.wdata + 1) else none, b⟩
  | .incompatible => ⟨.ssIncompatibleCodesets, none, b⟩
  | .leave => ⟨.ok, none, b⟩

/-- `cs_byte_from_netcs`.  Its copy loop goes the same way as the other's, and it measures what it
reads. -/
def csByteFromNetcs (side : Side) (tag : BitVec 32) (wDataLen : ℕ) (wantsLen : Bool) (b : Buffers) :
    StubResult :=
  match fromAction tag side with
  | .copy =>
    let b := copyLoop (wDataLen + 1) 0 b
    ⟨.ok, if wantsLen then some (strlen b.wdata + 1) else none, b⟩
  | .convert own =>
    let new := K.conv tag own (b.wdata.take wDataLen)
    let b := { b with
      ldata := overwrite b.ldata new
      writes := (List.range new.length).map (Prod.mk .ldata) ++ b.writes }
    ⟨.ok, if wantsLen then some (strlen b.wdata + 1) else none, b⟩
  | .incompatible => ⟨.ssIncompatibleCodesets, none, b⟩
  | .leave => ⟨.ok, none, b⟩

/-! ### What they are to do -/

/-- How many elements the action is to make of the bytes. -/
def Action.count (action : Action) (convert : BitVec 32 → List UInt8) (bytes : List UInt8) : ℕ :=
  match action with
  | .convert own => (convert own).length
  | .copy | .incompatible | .leave => bytes.length

/-- The length is the number of elements, and only these are written. -/
def Proper (output : Buffer) (count : ℕ) (r : StubResult) : Prop :=
  r.status = .ok ∧ r.len = some count ∧ ∀ w ∈ r.buffers.writes, w.1 = output ∧ w.2 < count

/-- The bytes are sent by one side and received by the other.  The memories behind the bytes, and
those of the buffers that are written, are arbitrary. -/
def RoundTrips (sender receiver : Side) (tag : BitVec 32)
    (bytes behindBytes wmem behindWire lmem : List UInt8) : Prop :=
  let sent := csByteToNetcs K sender tag bytes.length true ⟨wmem, bytes ++ behindBytes, []⟩
  let count := (toAction tag sender).count (fun own => K.conv own tag bytes) bytes
  let wire := sent.buffers.wdata.take count
  let received := csByteFromNetcs K receiver tag count true ⟨wire ++ behindWire, lmem, []⟩
  Proper .wdata count sent ∧
    Proper .ldata ((fromAction tag receiver).count (fun own => K.conv tag own wire) wire) received ∧
    received.len = some bytes.length ∧ received.buffers.ldata.take bytes.length = bytes

/-! ### The copies -/

theorem mem_writes_copyLoop {j : ℕ} : ∀ (n i : ℕ) (b : Buffers), i ≤ j → j < i + n →
    (Buffer.wdata, j) ∈ (copyLoop n i b).writes := by
  have hkeep : ∀ (n i : ℕ) (b : Buffers) (w : Buffer × ℕ), w ∈ b.writes →
      w ∈ (copyLoop n i b).writes := by
    intro n
    induction n with
    | zero => exact fun _ _ _ h => h
    | succ n ih => exact fun i b w h => ih _ _ _ (List.mem_cons_of_mem _ h)
  intro n
  induction n with
  | zero =>
    intro i b hi hlt
    omega
  | succ n ih =>
    intro i b hi hlt
    rw [copyLoop]
    rcases Nat.lt_or_eq_of_le hi with hij | rfl
    · exact ih _ _ hij (by omega)
    · exact hkeep _ _ _ _ List.mem_cons_self

variable {K} {tag : BitVec 32} {side : Side} {n : ℕ} {wantsLen : Bool} {b : Buffers}

/-- A copy to the network writes the element behind the last one. -/
theorem toNetcs_copy_writes (h : toAction tag side = .copy) :
    (Buffer.wdata, n) ∈ (csByteToNetcs K side tag n wantsLen b).buffers.writes := by
  rw [csByteToNetcs, h]
  exact mem_writes_copyLoop _ 0 b (Nat.zero_le n) (by omega)

/-- A copy from the network writes into the buffer it is to read. -/
theorem fromNetcs_copy_writes (h : fromAction tag side = .copy) :
    (Buffer.wdata, n) ∈ (csByteFromNetcs K side tag n wantsLen b).buffers.writes := by
  rw [csByteFromNetcs, h]
  exact mem_writes_copyLoop _ 0 b (Nat.zero_le n) (by omega)

/-! ### The length -/

/-- The measured length is the number of elements if the only zero is the last one. -/
theorem strlen_succ_eq_length_iff {w behind : List UInt8} :
    strlen (w ++ behind) + 1 = w.length ↔ ∃ v, w = v ++ [0] ∧ 0 ∉ v := by
  rw [strlen]
  constructor
  · intro h
    -- there is a zero in the text, else what is behind it would be measured as well
    have hlt : (w.takeWhile (· ≠ 0)).length < w.length := by
      by_contra hge
      have hall : w.takeWhile (· ≠ 0) = w :=
        (List.takeWhile_prefix _).eq_of_length_le (not_lt.mp hge)
      rw [List.takeWhile_append_of_pos (List.takeWhile_eq_self_iff.mp hall),
        List.length_append] at h
      omega
    have hw : (w ++ behind).takeWhile (· ≠ 0) = w.takeWhile (· ≠ 0) := by
      rw [List.takeWhile_append, if_neg hlt.ne]
    rw [hw] at h
    have hdrop : w.dropWhile (· ≠ 0) ≠ [] := by
      intro hnil
      have hsplit := List.takeWhile_append_dropWhile (p := (· ≠ 0)) (l := w)
      rw [hnil, List.append_nil] at hsplit
      rw [hsplit] at hlt
      exact lt_irrefl _ hlt
    obtain ⟨c, rest, hcons⟩ := List.exists_cons_of_ne_nil hdrop
    have hzero : c = 0 := by
      have hhead := List.head_dropWhile_not (fun x : UInt8 => decide (x ≠ 0)) hdrop
      simp only [hcons, List.head_cons] at hhead
      simpa using hhead
    -- the length leaves room for that zero only
    have hsplit := List.takeWhile_append_dropWhile (p := (· ≠ 0)) (l := w)
    have hlen := congrArg List.length hsplit
    rw [List.length_append, hcons, List.length_cons] at hlen
    have hrest : rest = [] := List.eq_nil_of_length_eq_zero (by omega)
    rw [hcons, hzero, hrest] at hsplit
    refine ⟨w.takeWhile (· ≠ 0), hsplit.symm, fun hmem => ?_⟩
    have hne := List.mem_takeWhile_imp hmem
    simp at hne
  · rintro ⟨v, rfl, hv⟩
    have hpos : ∀ c ∈ v, decide (c ≠ 0) = true := by
      intro c hc
      rw [decide_eq_true_iff]
      rintro rfl
      exact hv hc
    rw [List.append_assoc, List.takeWhile_append_of_pos hpos, List.length_append]
    simp

/-! ### There and back -/

theorem take_overwrite (mem new : List UInt8) : (overwrite mem new).take new.length = new :=
  List.take_left' rfl

theorem mem_writes_convert {output : Buffer} {new : List UInt8} {w : Buffer × ℕ}
    (h : w ∈ (List.range new.length).map (Prod.mk output) ++ []) :
    w.1 = output ∧ w.2 < new.length := by
  rw [List.append_nil, List.mem_map] at h
  obtain ⟨i, hi, rfl⟩ := h
  exact ⟨rfl, List.mem_range.mp hi⟩

/-- Sending is proper if the bytes are converted to a text with its only zero at the end. -/
theorem proper_toNetcs_iff {sender : Side} {bytes behind wmem : List UInt8} :
    Proper .wdata ((toAction tag sender).count (fun own => K.conv own tag bytes) bytes)
        (csByteToNetcs K sender tag bytes.length true ⟨wmem, bytes ++ behind, []⟩) ↔
      ∃ own, toAction tag sender = .convert own ∧
        ∃ v, K.conv own tag bytes = v ++ [0] ∧ 0 ∉ v := by
  cases h : toAction tag sender with
  | copy =>
    refine iff_of_false ?_ (by simp)
    rintro ⟨-, -, hwrites⟩
    exact lt_irrefl _ (hwrites _ (toNetcs_copy_writes h)).2
  | convert own =>
    have htake : (bytes ++ behind).take bytes.length = bytes := List.take_left' rfl
    simp only [Proper, csByteToNetcs, h, Action.count, htake, if_true, Option.some_inj, true_and,
      overwrite, strlen_succ_eq_length_iff]
    constructor
    · rintro ⟨hlen, -⟩
      exact ⟨own, rfl, hlen⟩
    · rintro ⟨own', hown, hlen⟩
      obtain rfl := Action.convert.inj hown
      exact ⟨hlen, fun w hw => mem_writes_convert hw⟩
  | incompatible => simp [Proper, csByteToNetcs, h]
  | leave => simp [Proper, csByteToNetcs, h]

/-- What is sent with a conversion. -/
theorem toNetcs_convert {sender : Side} {own : BitVec 32} (h : toAction tag sender = .convert own)
    (bytes behind wmem : List UInt8) :
    (csByteToNetcs K sender tag bytes.length true ⟨wmem, bytes ++ behind, []⟩).buffers.wdata.take
      (K.conv own tag bytes).length = K.conv own tag bytes := by
  have htake : (bytes ++ behind).take bytes.length = bytes := List.take_left' rfl
  simp only [csByteToNetcs, h, htake, take_overwrite]

/-- Receiving a text with its only zero at the end is proper if it is converted to as many
elements. -/
theorem proper_fromNetcs_iff {receiver : Side} {wire behind lmem : List UInt8}
    (hwire : ∃ v, wire = v ++ [0] ∧ 0 ∉ v) :
    Proper .ldata ((fromAction tag receiver).count (fun own => K.conv tag own wire) wire)
        (csByteFromNetcs K receiver tag wire.length true ⟨wire ++ behind, lmem, []⟩) ↔
      ∃ own, fromAction tag receiver = .convert own ∧
        wire.length = (K.conv tag own wire).length := by
  cases h : fromAction tag receiver with
  | copy =>
    refine iff_of_false ?_ (by simp)
    rintro ⟨-, -, hwrites⟩
    exact absurd (hwrites _ (fromNetcs_copy_writes h)).1 (by simp)
  | convert own =>
    have htake : (wire ++ behind).take wire.length = wire := List.take_left' rfl
    simp only [Proper, csByteFromNetcs, h, Action.count, htake, if_true, Option.some_inj, true_and,
      strlen_succ_eq_length_iff.mpr hwire]
    constructor
    · rintro ⟨hlen, -⟩
      exact ⟨own, rfl, hlen⟩
    · rintro ⟨own', hown, hlen⟩
      obtain rfl := Action.convert.inj hown
      exact ⟨hlen, fun w hw => mem_writes_convert hw⟩
  | incompatible => simp [Proper, csByteFromNetcs, h]
  | leave => simp [Proper, csByteFromNetcs, h]

/-- What is received with a conversion. -/
theorem fromNetcs_convert {receiver : Side} {own : BitVec 32}
    (h : fromAction tag receiver = .convert own) (wire behind lmem : List UInt8) :
    (csByteFromNetcs K receiver tag wire.length true ⟨wire ++ behind, lmem, []⟩).buffers.ldata.take
      (K.conv tag own wire).length = K.conv tag own wire := by
  have htake : (wire ++ behind).take wire.length = wire := List.take_left' rfl
  simp only [csByteFromNetcs, h, htake, take_overwrite]

/-- **Bytes that are sent come back** if and only if both sides convert, to the same code set or
with the same result; and the text on the wire is as long as they are, with its only zero at the
end. -/
theorem comesBack_iff (K : Conversion) (sender receiver : Side) (tag : BitVec 32)
    (bytes behindBytes wmem behindWire lmem : List UInt8) :
    RoundTrips K sender receiver tag bytes behindBytes wmem behindWire lmem ↔
      ∃ own own', toAction tag sender = .convert own ∧ fromAction tag receiver = .convert own' ∧
        (own = own' ∨ K.conv tag own' (K.conv own tag bytes) = bytes) ∧
        (K.conv own tag bytes).length = bytes.length ∧
        ∃ v, K.conv own tag bytes = v ++ [0] ∧ 0 ∉ v := by
  rw [RoundTrips, proper_toNetcs_iff]
  constructor
  · rintro ⟨⟨own, hto, hzero⟩, hproper, hlen, hbytes⟩
    simp only [hto, Action.count, toNetcs_convert hto] at hproper hlen hbytes
    obtain ⟨own', hfrom, hcount⟩ := (proper_fromNetcs_iff hzero).mp hproper
    have hlen' := hproper.2.1
    simp only [hfrom, hlen, Option.some_inj] at hlen'
    have hback := fromNetcs_convert (K := K) hfrom (K.conv own tag bytes) behindWire lmem
    rw [← hlen', hbytes] at hback
    exact ⟨own, own', hto, hfrom, .inr hback.symm, hcount.trans hlen'.symm, hzero⟩
  · rintro ⟨own, own', hto, hfrom, hback, hsame, hzero⟩
    -- from the same code set it comes back because the conversion does
    have hconv : K.conv tag own' (K.conv own tag bytes) = bytes := by
      rcases hback with rfl | hback
      · exact K.conv_conv own tag bytes
      · exact hback
    refine ⟨⟨own, hto, hzero⟩, ?_⟩
    simp only [hto, Action.count, toNetcs_convert hto]
    have hproper : Proper .ldata
        ((fromAction tag receiver).count (fun c => K.conv tag c (K.conv own tag bytes))
          (K.conv own tag bytes))
        (csByteFromNetcs K receiver tag (K.conv own tag bytes).length true
          ⟨K.conv own tag bytes ++ behindWire, lmem, []⟩) :=
      (proper_fromNetcs_iff hzero).mpr ⟨own', hfrom, by rw [hconv, hsame]⟩
    refine ⟨hproper, ?_, ?_⟩
    · rw [hproper.2.1, hfrom]
      simp only [Action.count, hconv]
    · have htake := fromNetcs_convert (K := K) hfrom (K.conv own tag bytes) behindWire lmem
      rwa [hconv] at htake

/-- A conversion between code sets that are all the same. -/
def sameBytes : Conversion := ⟨fun _ _ bytes => bytes, fun _ _ _ => rfl⟩

/-- A client and a server with one code set: nothing of what is sent arrives, and one element behind
the text is copied on either side. -/
theorem no_conversion_loses_text :
    (csByteFromNetcs sameBytes (.server (some 1)) 1 3 true ⟨[65, 66, 0], [7, 7, 7], []⟩).buffers =
      ⟨[7, 7, 7, 0], [7, 7, 7], [(.wdata, 3), (.wdata, 2), (.wdata, 1), (.wdata, 0)]⟩ ∧
    ¬ RoundTrips sameBytes (.client (.method (some .noConversion) 1)) (.server (some 1)) 1
      [65, 66, 0] [] [] [] [7, 7, 7] := by
  refine ⟨by decide, ?_⟩
  rintro ⟨⟨-, -, hwrites⟩, -⟩
  exact absurd (hwrites _ (toNetcs_copy_writes rfl)).2 (by decide)

end Codeset
