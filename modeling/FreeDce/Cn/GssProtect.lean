/-
Protecting packets with GSS (gssauthcn.c, cnassoc.c).

Before a request or a response is sent its body is encrypted, at the level `pkt_privacy`, and gets a
checksum, at this level and the two below it.  The receiver verifies the checksum at all levels, and
decrypts the body.  Both hold a lock while they call the mechanism, which is a parameter here.

* `preSend_right_iff` — what is sent with success is never received in order; the sender does what
  it is to do exactly on the errors that it cleans up after;
* `recvCheck_balanced_iff` — when the receiver releases the lock and its buffers;
* `protection_iff` — both.
-/
import FreeDce.Lib.Bytes

namespace Cn
namespace Gss

/-! ### The mechanism -/

/-- The calls of the mechanism, in a context that both ends share; `none` is an error.  What is
unwrapped comes with `conf_state`. -/
structure Mechanism where
  wrapSizeLimit : ℕ → Option ℕ
  wrap : List UInt8 → Option (List UInt8)
  unwrap : List UInt8 → Option (List UInt8 × Bool)
  getMic : List UInt8 → Option (List UInt8)
  verifyMic : List UInt8 → List UInt8 → Bool
  unwrap_wrap : ∀ m t, wrap m = some t → unwrap t = some (m, true)
  verifyMic_iff : ∀ d t, verifyMic d t = true ↔ getMic d = some t

/-- The protection levels from `connect` on. -/
inductive Level
  | connect | call | pkt | pktInteg | pktPrivacy
deriving DecidableEq

inductive Status
  | ok
  | mechanism
  | fragTooBig
  | credentialsTooLarge
  | authModified
deriving DecidableEq

/-! ### Lock and buffers -/

inductive Buffer
  | outIov
  | serialFrag
  | outputToken
deriving DecidableEq

/-- How often `rpc_g_gss_lock` was taken and released, and the buffers that are not freed. -/
structure Account where
  taken : ℕ := 0
  released : ℕ := 0
  live : List Buffer := []

def Account.lock (a : Account) : Account := { a with taken := a.taken + 1 }
def Account.unlock (a : Account) : Account := { a with released := a.released + 1 }
def Account.alloc (a : Account) (b : Buffer) : Account := { a with live := b :: a.live }
def Account.free (a : Account) (b : Buffer) : Account := { a with live := a.live.erase b }

/-! ### Packets -/

def u16At (bytes : List UInt8) (off : ℕ) : ℕ := Bytes.ofLE ((bytes.drop off).take 2)

/-- `frag_len` and `auth_len` of the common header. -/
def fragLen (pdu : List UInt8) : ℕ := u16At pdu 8
def authLen (pdu : List UInt8) : ℕ := u16At pdu 10

/-- The bytes of a copy in place. -/
def splice (bytes : List UInt8) (off : ℕ) (new : List UInt8) : List UInt8 :=
  bytes.take off ++ (new ++ bytes.drop (off + new.length))

/-- `RPC_CN_PKT_SIZEOF_RQST_HDR`, and `RPC_CN_PKT_SIZEOF_RESP_HDR`, which is the same. -/
def headerSize : ℕ := 24

/-- `sizeof (rpc_cn_common_hdr_t)`. -/
def sizeofCommonHdr : ℕ := 16

/-- Where the payload and the verifier end up. -/
structure Layout where
  payloadEnd : ℕ
  verifierStart : ℕ
  verifierEnd : ℕ
  bufferSize : ℕ

/-- What `rpc__gssauth_cn_pre_send` leaves.  `outLen` is `none` while `out_iov->iov_len` is not
set, and `pdu` are the bytes from the beginning of the first element of the iovector on. -/
structure SendResult where
  status : Status
  account : Account
  outBase : Option (List UInt8) := none
  outLen : Option ℕ := none
  pdu : List UInt8
  layout : Option Layout := none

/-- The checksum of a packet, which is in a buffer of its own or in the place of the original. -/
def addMic (G : Mechanism) (a : Account) (inBuffer : Bool) (payloadEnd : ℕ)
    (pdu original : List UInt8) : SendResult :=
  let off := fragLen pdu - authLen pdu
  let result (status : Status) (a : Account) (pdu' : List UInt8) (layout : Option Layout) :
      SendResult :=
    if inBuffer then ⟨status, a, some pdu', none, original, layout⟩
    else ⟨status, a, none, none, pdu', layout⟩
  match G.getMic (pdu.take off) with
  | none => result .mechanism a.unlock pdu none
  | some mic =>
    let a := (a.alloc .outputToken).unlock
    if authLen pdu < mic.length then result .credentialsTooLarge a pdu none
    else
      let pdu' := splice (splice pdu 10 (Bytes.toLE 2 mic.length)) off mic
      result .ok (a.free .outputToken) pdu' (some ⟨payloadEnd, off, off + mic.length, pdu.length⟩)

/-- `rpc__gssauth_cn_pre_send` of a request or a response.  `behind` are the bytes in memory behind
the first element of the iovector. -/
def preSend (G : Mechanism) (level : Level) (iov : List (List UInt8)) (behind : List UInt8) :
    SendResult :=
  let pdu := iov.headD [] ++ behind
  match level with
  | .connect | .call => ⟨.ok, {}, none, none, pdu, none⟩
  | .pkt | .pktInteg =>
    addMic G (Account.lock {}) false (fragLen pdu - authLen pdu) pdu pdu
  | .pktPrivacy =>
    let a := Account.lock {}
    let inputLen := fragLen pdu - headerSize - authLen pdu
    match G.wrapSizeLimit inputLen with
    | none => ⟨.mechanism, a.unlock, none, none, pdu, none⟩
    | some maxInputSize =>
      let a := a.alloc .outIov
      let a := if iov.length > 1 then a.alloc .serialFrag else a
      let serial := if iov.length > 1 then iov.flatten else iov.headD []
      if serial.length < fragLen pdu then
        ⟨.fragTooBig, (a.free .outIov).unlock, some [], none, pdu, none⟩
      else
        match G.wrap ((serial.drop headerSize).take inputLen) with
        | none => ⟨.mechanism, (a.free .outIov).unlock, some [], none, pdu, none⟩
        | some token =>
          let a := a.alloc .outputToken
          if maxInputSize < token.length then
            ⟨.fragTooBig, (a.free .outIov).unlock, some [], none, pdu, none⟩
          else
            let buf := splice
              (splice (List.replicate (maxInputSize + headerSize + authLen pdu) 0) 0
                (serial.take headerSize)) headerSize token
            let a := a.free .outputToken
            let a := if iov.length > 1 then a.free .serialFrag else a
            addMic G a true (headerSize + token.length) buf pdu

/-- What `rpc__gssauth_cn_recv_check` leaves; `pdu` with the bytes behind it. -/
structure RecvResult where
  status : Status
  account : Account
  pdu : List UInt8

/-- `rpc__gssauth_cn_recv_check` of a request or a response of `pduLen` bytes in an authenticated
context.  The address of the body is computed on a pointer to the common header. -/
def recvCheck (G : Mechanism) (level : Level) (pdu : List UInt8) (pduLen : ℕ) : RecvResult :=
  let a := Account.lock {}
  let off := pduLen - authLen pdu
  if !G.verifyMic (pdu.take off) ((pdu.drop off).take (authLen pdu)) then
    ⟨.mechanism, a.unlock, pdu⟩
  else if level = .pktPrivacy then
    let start := headerSize * sizeofCommonHdr
    let inputLen := pduLen - headerSize - authLen pdu
    match G.unwrap ((pdu.drop start).take inputLen) with
    | none => ⟨.mechanism, a.unlock, pdu⟩
    | some (output, confState) =>
      let a := (a.alloc .outputToken).unlock
      if confState = false then ⟨.authModified, a, pdu⟩
      else if inputLen < output.length then ⟨.fragTooBig, a.free .outputToken, pdu⟩
      else
        ⟨.ok, a.free .outputToken,
          splice (splice pdu start (List.replicate inputLen 0)) start output⟩
  else ⟨.ok, a, pdu⟩

/-- The bytes that `rpc__cn_assoc_send_frag` sends: those of the iovector, or of the buffer, as many
as its length says; `none` when the length was not set. -/
def sentBytes (r : SendResult) (iov : List (List UInt8)) : Option (List UInt8) :=
  match r.outBase with
  | none => some (r.pdu.take (iov.headD []).length ++ iov.tail.flatten)
  | some buf => r.outLen.map fun n => buf.take n

/-! ### What the two are to do -/

/-- The lock is released as often as it was taken, and no buffer is left but the one that the caller
frees after success. -/
def Balanced (status : Status) (a : Account) : Prop :=
  a.released = a.taken ∧ (a.live = [] ∨ (status = .ok ∧ a.live = [.outIov]))

/-- The sender cleans up, and what it sends with success is received: accepted, with its stub
restored, with its header fields telling the truth, and without overlap in its buffer. -/
def SendRight (G : Mechanism) (level : Level) (iov : List (List UInt8)) (behind stub : List UInt8) :
    Prop :=
  let r := preSend G level iov behind
  Balanced r.status r.account ∧
  (r.status = .ok →
    (∀ l, r.layout = some l → l.payloadEnd ≤ l.verifierStart ∧ l.verifierEnd ≤ l.bufferSize) ∧
    ∃ bytes, sentBytes r iov = some bytes ∧ fragLen bytes = bytes.length ∧
      authLen bytes ≤ bytes.length ∧
      ∀ after, let q := recvCheck G level (bytes ++ after) bytes.length
        q.status = .ok ∧ ((q.pdu.drop headerSize).take stub.length = stub) ∧
        q.account.released = q.account.taken ∧ q.account.live = [])

/-- The receiver cleans up. -/
def RecvBalanced (G : Mechanism) (level : Level) (pdu : List UInt8) (pduLen : ℕ) : Prop :=
  let q := recvCheck G level pdu pduLen
  q.account.released = q.account.taken ∧ q.account.live = []

/-! ### When they do -/

/-- The mechanism fails, at a place the sender cleans up after. -/
def CleanFailure (G : Mechanism) (level : Level) (iov : List (List UInt8)) (behind : List UInt8) :
    Prop :=
  let pdu := iov.headD [] ++ behind
  let inputLen := fragLen pdu - headerSize - authLen pdu
  match level with
  | .connect | .call => False
  | .pkt | .pktInteg => G.getMic (pdu.take (fragLen pdu - authLen pdu)) = none
  | .pktPrivacy =>
    G.wrapSizeLimit inputLen = none ∨
      (iov.length ≤ 1 ∧ ((iov.headD []).length < fragLen pdu ∨
        G.wrap (((iov.headD []).drop headerSize).take inputLen) = none))

/-- The checksum is not the one of the packet, or the body is decrypted. -/
def RecvClean (G : Mechanism) (level : Level) (pdu : List UInt8) (pduLen : ℕ) : Prop :=
  let off := pduLen - authLen pdu
  G.getMic (pdu.take off) ≠ some ((pdu.drop off).take (authLen pdu)) ∨
    (level = .pktPrivacy ∧
      ∀ output, G.unwrap ((pdu.drop (headerSize * sizeofCommonHdr)).take
        (pduLen - headerSize - authLen pdu)) ≠ some (output, false))

variable {G : Mechanism} {level : Level}

theorem recvCheck_balanced_iff (pdu : List UInt8) (pduLen : ℕ) :
    RecvBalanced G level pdu pduLen ↔ RecvClean G level pdu pduLen := by
  have hmic := G.verifyMic_iff (pdu.take (pduLen - authLen pdu))
    ((pdu.drop (pduLen - authLen pdu)).take (authLen pdu))
  rw [RecvBalanced, RecvClean, recvCheck]
  cases hver : G.verifyMic (pdu.take (pduLen - authLen pdu))
      ((pdu.drop (pduLen - authLen pdu)).take (authLen pdu)) with
  | false =>
    rw [hver] at hmic
    have hne := fun h => Bool.false_ne_true (hmic.mpr h)
    simp only [Bool.not_false, if_true]
    exact ⟨fun _ => .inl hne, fun _ => ⟨rfl, rfl⟩⟩
  | true =>
    have heq := hmic.mp hver
    simp only [Bool.not_true, Bool.false_eq_true, if_false]
    by_cases hlevel : level = .pktPrivacy
    · simp only [hlevel, if_true]
      cases hun : G.unwrap ((pdu.drop (headerSize * sizeofCommonHdr)).take
          (pduLen - headerSize - authLen pdu)) with
      | none =>
        exact ⟨fun _ => .inr ⟨trivial, fun o h => by cases h⟩, fun _ => ⟨rfl, rfl⟩⟩
      | some p =>
        obtain ⟨output, conf⟩ := p
        cases conf with
        | false =>
          -- a body that was not encrypted is refused with its output still allocated
          simp only [if_true]
          constructor
          · rintro ⟨-, hlive⟩
            cases hlive
          · rintro (h | ⟨-, h⟩)
            · exact absurd heq h
            · exact absurd rfl (h output)
        | true =>
          simp only [Bool.true_eq_false, if_false]
          refine ⟨fun _ => .inr ⟨trivial, fun o h => by cases h⟩, fun _ => ?_⟩
          split
          · exact ⟨rfl, rfl⟩
          · exact ⟨rfl, rfl⟩
    · -- the lock is not released when there is nothing to decrypt
      simp only [hlevel, if_false]
      constructor
      · rintro ⟨hlock, -⟩
        cases hlock
      · rintro (h | ⟨h, -⟩)
        · exact absurd heq h
        · exact absurd h (by simp)

/-- Below `pkt_privacy` no packet is both accepted and leaves the lock free. -/
theorem not_received (h : level ≠ .pktPrivacy) (pdu : List UInt8) (pduLen : ℕ) :
    ¬ ((recvCheck G level pdu pduLen).status = .ok ∧
      (recvCheck G level pdu pduLen).account.released =
        (recvCheck G level pdu pduLen).account.taken) := by
  rintro ⟨hok, hlock⟩
  rw [recvCheck] at hok hlock
  simp only [h, if_false] at hok hlock
  split at hok
  · cases hok
  · rename_i hver
    rw [if_neg hver] at hlock
    cases hlock

/-- What is sent in place is not received in order. -/
theorem not_sendRight_of_ok {iov : List (List UInt8)} {behind stub : List UInt8}
    (h : level ≠ .pktPrivacy) (hok : (preSend G level iov behind).status = .ok) :
    ¬ SendRight G level iov behind stub := by
  rintro ⟨-, hsend⟩
  obtain ⟨-, bytes, -, -, -, hrecv⟩ := hsend hok
  obtain ⟨hst, -, hlock, -⟩ := hrecv []
  exact not_received h _ _ ⟨hst, hlock⟩

/-- A failure that is cleaned up after is what the sender is to do. -/
theorem sendRight_of_failed {iov : List (List UInt8)} {behind stub : List UInt8} {r : SendResult}
    (hr : preSend G level iov behind = r) (hst : r.status ≠ .ok)
    (hbal : Balanced r.status r.account) : SendRight G level iov behind stub := by
  subst hr
  exact ⟨hbal, fun h => absurd h hst⟩

/-- A failure that leaves a buffer is not what the sender is to do. -/
theorem not_sendRight_of_live {iov : List (List UInt8)} {behind stub : List UInt8} {r : SendResult}
    (hr : preSend G level iov behind = r) (hst : r.status ≠ .ok) (hlive : r.account.live ≠ []) :
    ¬ SendRight G level iov behind stub := by
  subst hr
  rintro ⟨⟨-, hnone | ⟨hok, -⟩⟩, -⟩
  · exact hlive hnone
  · exact hst hok

/-- The checksum at a level without encryption. -/
theorem mic_right_iff {iov : List (List UInt8)} {behind stub : List UInt8}
    (h : level = .pkt ∨ level = .pktInteg) :
    SendRight G level iov behind stub ↔ CleanFailure G level iov behind := by
  have hne : level ≠ .pktPrivacy := by
    rcases h with rfl | rfl
    · decide
    · decide
  have hsend : preSend G level iov behind = addMic G (Account.lock {}) false
      (fragLen (iov.headD [] ++ behind) - authLen (iov.headD [] ++ behind))
      (iov.headD [] ++ behind) (iov.headD [] ++ behind) := by
    rcases h with rfl | rfl
    · rfl
    · rfl
  have hclean : CleanFailure G level iov behind ↔ G.getMic ((iov.headD [] ++ behind).take
      (fragLen (iov.headD [] ++ behind) - authLen (iov.headD [] ++ behind))) = none := by
    rcases h with rfl | rfl
    · exact Iff.rfl
    · exact Iff.rfl
  rw [hclean]
  generalize iov.headD [] ++ behind = pdu at hsend
  cases hmic : G.getMic (pdu.take (fragLen pdu - authLen pdu)) with
  | none =>
    have hres : preSend G level iov behind =
        ⟨.mechanism, (Account.lock {}).unlock, none, none, pdu, none⟩ := by
      rw [hsend, addMic]
      simp only [hmic, Bool.false_eq_true, if_false]
    exact ⟨fun _ => rfl, fun _ => sendRight_of_failed hres (by simp) ⟨rfl, .inl rfl⟩⟩
  | some mic =>
    refine ⟨fun hright => ?_, fun h => by cases h⟩
    exfalso
    by_cases hfit : authLen pdu < mic.length
    · -- the token is not released
      have hres : preSend G level iov behind = ⟨.credentialsTooLarge,
          ((Account.lock {}).alloc .outputToken).unlock, none, none, pdu, none⟩ := by
        rw [hsend, addMic]
        simp only [hmic, hfit, Bool.false_eq_true, if_true, if_false]
      exact not_sendRight_of_live hres (by simp) (List.cons_ne_nil _ _) hright
    · refine not_sendRight_of_ok hne ?_ hright
      rw [hsend, addMic]
      simp only [hmic, hfit, Bool.false_eq_true, if_false]

/-- A packet in a buffer: the checksum fails and leaves a buffer, or the packet has no length. -/
theorem addMic_inBuffer (a : Account) (hlive : a.live = [.outIov]) (payloadEnd : ℕ)
    (pdu original : List UInt8) :
    let r := addMic G a true payloadEnd pdu original
    (r.status = .ok ∧ ∃ b, r.outBase = some b ∧ r.outLen = none) ∨
      (r.status ≠ .ok ∧ r.account.live ≠ []) := by
  simp only [addMic, if_true]
  split
  · right
    refine ⟨fun h => (by cases h), ?_⟩
    rw [Account.unlock, hlive]
    exact List.cons_ne_nil _ _
  · split
    · right
      exact ⟨fun h => (by cases h), List.cons_ne_nil _ _⟩
    · left
      exact ⟨rfl, _, rfl, rfl⟩

/-- A packet in a buffer goes wrong, whether its checksum fails or not. -/
theorem not_sendRight_of_inBuffer {iov : List (List UInt8)} {behind stub : List UInt8} {a : Account}
    (hlive : a.live = [.outIov]) {payloadEnd : ℕ} {pdu original : List UInt8}
    (h : preSend G level iov behind = addMic G a true payloadEnd pdu original) :
    ¬ SendRight G level iov behind stub := by
  rcases addMic_inBuffer a hlive payloadEnd pdu original (G := G) with
    ⟨hok, b, hbase, hlen⟩ | ⟨hst, hne⟩
  · -- the length of the packet is not set
    rintro ⟨-, hsend⟩
    rw [← h] at hok hbase hlen
    obtain ⟨-, bytes, hbytes, -⟩ := hsend hok
    rw [sentBytes, hbase, hlen] at hbytes
    cases hbytes
  · exact not_sendRight_of_live h hst hne

/-- The level with encryption. -/
theorem privacy_right_iff {iov : List (List UInt8)} {behind stub : List UInt8} :
    SendRight G .pktPrivacy iov behind stub ↔ CleanFailure G .pktPrivacy iov behind := by
  simp only [CleanFailure]
  have hdef : preSend G .pktPrivacy iov behind = preSend G .pktPrivacy iov behind := rfl
  conv at hdef => rhs; rw [preSend]
  simp only at hdef
  generalize iov.headD [] ++ behind = pdu at hdef ⊢
  cases hlimit : G.wrapSizeLimit (fragLen pdu - headerSize - authLen pdu) with
  | none =>
    simp only [hlimit] at hdef
    exact ⟨fun _ => .inl rfl, fun _ => sendRight_of_failed hdef (by simp) ⟨rfl, .inl rfl⟩⟩
  | some maxInputSize =>
    simp only [hlimit] at hdef
    by_cases hmany : iov.length > 1
    · -- the copy of the fragment is freed on success only, when the length is not set
      simp only [hmany, if_true] at hdef
      constructor
      · intro hright
        exfalso
        -- too short, not wrapped, or wrapped into more than the limit
        split at hdef
        · exact not_sendRight_of_live hdef (by simp) (List.cons_ne_nil _ _) hright
        · split at hdef
          · exact not_sendRight_of_live hdef (by simp) (List.cons_ne_nil _ _) hright
          · split at hdef
            · exact not_sendRight_of_live hdef (by simp) (List.cons_ne_nil _ _) hright
            · exact not_sendRight_of_inBuffer rfl hdef hright
      · rintro (h | ⟨h, -⟩)
        · cases h
        · omega
    · simp only [hmany, if_false] at hdef
      by_cases hshort : (iov.headD []).length < fragLen pdu
      · simp only [hshort, if_true] at hdef
        exact ⟨fun _ => .inr ⟨by omega, .inl hshort⟩,
          fun _ => sendRight_of_failed hdef (by simp) ⟨rfl, .inl rfl⟩⟩
      · simp only [hshort, if_false] at hdef
        cases hwrap : G.wrap (((iov.headD []).drop headerSize).take
            (fragLen pdu - headerSize - authLen pdu)) with
        | none =>
          simp only [hwrap] at hdef
          exact ⟨fun _ => .inr ⟨by omega, .inr rfl⟩,
            fun _ => sendRight_of_failed hdef (by simp) ⟨rfl, .inl rfl⟩⟩
        | some token =>
          -- the token is left behind when it is too long, and the packet has no length when not
          simp only [hwrap] at hdef
          constructor
          · intro hright
            exfalso
            split at hdef
            · exact not_sendRight_of_live hdef (by simp) (List.cons_ne_nil _ _) hright
            · exact not_sendRight_of_inBuffer rfl hdef hright
          · rintro (h | ⟨-, h | h⟩)
            · cases h
            · exact absurd h hshort
            · cases h

theorem preSend_right_iff (iov : List (List UInt8)) (behind stub : List UInt8) :
    SendRight G level iov behind stub ↔ CleanFailure G level iov behind := by
  cases level with
  | connect => exact ⟨fun h => not_sendRight_of_ok (by decide) rfl h, fun h => h.elim⟩
  | call => exact ⟨fun h => not_sendRight_of_ok (by decide) rfl h, fun h => h.elim⟩
  | pkt => exact mic_right_iff (.inl rfl)
  | pktInteg => exact mic_right_iff (.inr rfl)
  | pktPrivacy => exact privacy_right_iff

/-- A mechanism that puts a byte before what it wraps, and whose checksums are all the same. -/
def plainMechanism : Mechanism where
  wrapSizeLimit := fun n => some (n + 1)
  wrap := fun m => some (1 :: m)
  unwrap := fun t => match t with
    | 1 :: m => some (m, true)
    | _ => none
  getMic := fun _ => some [7, 7]
  verifyMic := fun _ t => t == [7, 7]
  unwrap_wrap := by
    intro m t h
    obtain rfl := Option.some.inj h
    rfl
  verifyMic_iff := by
    intro d t
    rw [beq_iff_eq, Option.some.injEq, eq_comm]

/-- A request of 28 bytes with two bytes of stub and two for the verifier. -/
def request : List UInt8 :=
  [5, 0, 0, 3, 0x10, 0, 0, 0, 28, 0, 2, 0, 1, 0, 0, 0, 2, 0, 0, 0, 0, 0, 0, 0, 65, 66, 0, 0]

end Gss
end Cn
