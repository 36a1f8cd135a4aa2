/-
Elements of pipes on the wire (ndrmi.c, ndrui.c, ndrui.h, interpsh.c).

A base type of fixed form is a sequence of alignments and scalars.  A chunk of elements is
transferred one by one, or in bulk where the data lie in memory as they lie on the wire; the last
of a number of structures is always transferred by itself, since what pads it is not on the wire.
The receiver reads from buffers that the transport hands out one after the other.

* `checkBuffer_spec`, `alignMp_spec`, `unmarScalar_spec`, `unmarByCopying_spec` — reading from
  buffers is reading from the stream;
* `marshArr_eq` — what is marshalled in bulk is what would be marshalled one by one, except for the
  padding of arrays;
* `unmarArr_spec` — the receiver has the elements, however many of them it asks for.
-/
import FreeDce.Idl.MarshStream
import FreeDce.Lib.Bytes

namespace Idl

namespace Pipe

open Bytes

/-! ### The stream -/

/-- An octet of the stream; that of a padding is not determined. -/
abbrev Octet := Option UInt8

/-- Data from an offset on, each at a multiple of its alignment. -/
def layout : ℕ → List Datum → List Octet
  | _, [] => []
  | p, d :: ds =>
    List.replicate (alignUp p d.align - p) none ++ d.bytes.map some ++
      layout (alignUp p d.align + d.bytes.length) ds

/-- The offset behind the data. -/
def layoutEnd : ℕ → List Datum → ℕ
  | p, [] => p
  | p, d :: ds => layoutEnd (alignUp p d.align + d.bytes.length) ds

theorem le_alignUp {a : ℕ} (ha : 0 < a) (p : ℕ) : p ≤ alignUp p a := by
  have := Nat.div_add_mod (p + (a - 1)) a
  have := Nat.mod_lt (p + (a - 1)) ha
  rw [alignUp, Nat.mul_comm]
  omega

theorem dvd_alignUp (p a : ℕ) : a ∣ alignUp p a := ⟨_, Nat.mul_comm _ _⟩

theorem alignUp_of_dvd {a p : ℕ} (ha : 0 < a) (h : a ∣ p) : alignUp p a = p := by
  obtain ⟨q, rfl⟩ := h
  rw [alignUp, Nat.mul_add_div ha, Nat.div_eq_of_lt (by omega), Nat.add_zero, Nat.mul_comm]

theorem alignUp_add_of_dvd {a p : ℕ} (ha : 0 < a) (h : a ∣ p) (q : ℕ) :
    alignUp (p + q) a = p + alignUp q a := by
  obtain ⟨c, rfl⟩ := h
  rw [alignUp, alignUp, Nat.add_assoc, Nat.mul_add_div ha, Nat.add_mul, Nat.mul_comm c]

/-- A multiple of the alignment that is not before the offset is not before the aligned offset. -/
theorem alignUp_le {a p n : ℕ} (ha : 0 < a) (hn : a ∣ n) (h : p ≤ n) : alignUp p a ≤ n := by
  obtain ⟨q, rfl⟩ := hn
  rw [alignUp, Nat.mul_comm a q]
  refine Nat.mul_le_mul_right a ?_
  rw [Nat.div_le_iff_le_mul_add_pred ha]
  omega

/-- The paddings are positive. -/
def Aligned (ds : List Datum) : Prop := ∀ d ∈ ds, 0 < d.align

theorem layoutEnd_eq (ds : List Datum) (h : Aligned ds) (p : ℕ) :
    layoutEnd p ds = p + (layout p ds).length := by
  induction ds generalizing p with
  | nil => rfl
  | cons d ds ih =>
    have hd := le_alignUp (h d List.mem_cons_self) p
    rw [layoutEnd, layout, ih fun e he => h e (List.mem_cons_of_mem _ he)]
    simp only [List.length_append, List.length_replicate, List.length_map]
    omega

theorem layout_append (ds es : List Datum) (p : ℕ) :
    layout p (ds ++ es) = layout p ds ++ layout (layoutEnd p ds) es := by
  induction ds generalizing p with
  | nil => rfl
  | cons d ds ih =>
    rw [List.cons_append, layout, layout, layoutEnd, ih]
    simp only [List.append_assoc]

theorem layoutEnd_append (ds es : List Datum) (p : ℕ) :
    layoutEnd p (ds ++ es) = layoutEnd (layoutEnd p ds) es := by
  induction ds generalizing p with
  | nil => rfl
  | cons d ds ih => exact ih _

/-- The reference stream is laid out from its start. -/
theorem foldl_refAdd (ds : List Datum) (h : Aligned ds) (ref : List Octet) :
    ds.foldl refAdd ref = ref ++ layout ref.length ds := by
  induction ds generalizing ref with
  | nil => exact (List.append_nil ref).symm
  | cons d ds ih =>
    have hd := le_alignUp (h d List.mem_cons_self) ref.length
    rw [List.foldl_cons, ih (fun e he => h e (List.mem_cons_of_mem _ he)), layout, refAdd]
    simp only [List.append_assoc, List.length_append, List.length_replicate, List.length_map]
    rw [show ref.length + (alignUp ref.length d.align - ref.length + d.bytes.length) =
      alignUp ref.length d.align + d.bytes.length by omega]

/-- Data lie the same way behind every multiple of their alignments. -/
theorem layout_shift {a : ℕ} (ds : List Datum) (h : ∀ d ∈ ds, 0 < d.align ∧ d.align ∣ a) {p : ℕ}
    (hp : a ∣ p) (q : ℕ) :
    layout (p + q) ds = layout q ds ∧ layoutEnd (p + q) ds = p + layoutEnd q ds := by
  induction ds generalizing q with
  | nil => exact ⟨rfl, rfl⟩
  | cons d ds ih =>
    obtain ⟨hpos, hdvd⟩ := h d List.mem_cons_self
    have heq := alignUp_add_of_dvd hpos (hdvd.trans hp) q
    obtain ⟨hl, he⟩ := ih (fun e he => h e (List.mem_cons_of_mem _ he))
      (alignUp q d.align + d.bytes.length)
    rw [layout, layout, layoutEnd, layoutEnd, heq, Nat.add_sub_add_left, Nat.add_assoc, hl, he]
    exact ⟨rfl, rfl⟩

/-- Where data begin with an alignment, it may be done before. -/
theorem layout_align {a : ℕ} (ha : 0 < a) (ds : List Datum) (p : ℕ) :
    layout p (⟨a, []⟩ :: ds) =
      List.replicate (alignUp p a - p) none ++ layout (alignUp p a) (⟨a, []⟩ :: ds) := by
  have h := alignUp_of_dvd ha (dvd_alignUp p a)
  simp only [layout, h, Nat.sub_self, List.replicate_zero, List.map_nil, List.append_nil,
    List.nil_append, List.length_nil, Nat.add_zero]

/-! ### Base types -/

inductive Field
  | align (a : ℕ)
  | scalar (a : ℕ)
deriving DecidableEq

/-- A scalar, a structure, or an array of them. -/
inductive Kind
  | scalar
  | struct
  | array
deriving DecidableEq

/-- The base type of a pipe.  The fields are those of a scalar or a structure, behind its own
alignment; `size` is what `rpc_ss_type_size` gives.  An array has `units` of them. -/
structure Base where
  kind : Kind
  align : ℕ
  body : List Field
  units : ℕ
  size : ℕ
deriving DecidableEq

def Field.bound : Field → ℕ
  | .align a => a
  | .scalar a => a

def Base.fields (b : Base) : List Field := .align b.align :: b.body

abbrev Value := List (List UInt8)

abbrev Elt := List Value

/-- The offset behind the fields. -/
def fieldsEnd : List Field → ℕ → ℕ
  | [], p => p
  | .align a :: fs, p => fieldsEnd fs (alignUp p a)
  | .scalar a :: fs, p => fieldsEnd fs (alignUp p a + a)

/-- The values are those of the scalars. -/
def Fits : List Field → List (List UInt8) → Prop
  | [], vs => vs = []
  | .align _ :: fs, vs => Fits fs vs
  | .scalar a :: fs, vs => ∃ v vs', vs = v :: vs' ∧ v.length = a ∧ Fits fs vs'

def fieldData : List Field → List (List UInt8) → List Datum
  | [], _ => []
  | .align a :: fs, vs => ⟨a, []⟩ :: fieldData fs vs
  | .scalar a :: fs, vs => ⟨a, vs.headD []⟩ :: fieldData fs vs.tail

/-- What a structure takes up in memory that is laid out like the wire. -/
def Base.unitSize (b : Base) : ℕ := alignUp (fieldsEnd b.fields 0) b.align

structure Base.Ok (b : Base) : Prop where
  align : b.align ∣ 8
  body : ∀ f ∈ b.body, f.bound ∣ b.align
  units : b.kind ≠ .array → b.units = 1
  pos : 0 < b.units
  size : 0 < b.size
  scalar : b.kind = .scalar → b.body = [.scalar b.align]

/-- The memory of the base type is laid out like the wire. -/
def Base.Packed (b : Base) : Prop := b.size = b.units * b.unitSize

def Base.FitsElt (b : Base) (e : Elt) : Prop := e.length = b.units ∧ ∀ u ∈ e, Fits b.fields u

def unitsData (b : Base) (us : List Value) : List Datum := us.flatMap (fieldData b.fields)

def eltsData (b : Base) (es : List Elt) : List Datum := unitsData b es.flatten

/-- What stands behind the elements of a chunk when arrays are sent in bulk. -/
def trail (b : Base) (bulk : Bool) : List Datum :=
  if bulk = true ∧ b.kind = .array then [⟨b.align, []⟩] else []

variable {b : Base} {a p m : ℕ} {fs : List Field} {vs : List (List UInt8)} {u : Value}
  {us vs' : List Value}

theorem Base.Ok.align_pos (hb : b.Ok) : 0 < b.align :=
  Nat.pos_of_dvd_of_pos hb.align (by norm_num)

theorem Base.Ok.fields (hb : b.Ok) : ∀ f ∈ b.fields, f.bound ∣ b.align := by
  intro f hf
  rcases List.mem_cons.mp hf with rfl | hf
  · exact dvd_rfl
  · exact hb.body f hf

theorem fieldData_align (h : ∀ f ∈ fs, f.bound ∣ a) (vs : List (List UInt8)) :
    ∀ d ∈ fieldData fs vs, d.align ∣ a := by
  induction fs generalizing vs with
  | nil => exact fun d hd => (List.not_mem_nil hd).elim
  | cons f fs ih =>
    intro d hd
    have hf := h f List.mem_cons_self
    have hfs : ∀ f ∈ fs, f.bound ∣ a := fun f hf => h f (List.mem_cons_of_mem _ hf)
    cases f with
    | align c =>
      rcases List.mem_cons.mp hd with rfl | hd
      · exact hf
      · exact ih hfs _ d hd
    | scalar c =>
      rcases List.mem_cons.mp hd with rfl | hd
      · exact hf
      · exact ih hfs _ d hd

theorem Base.Ok.data (hb : b.Ok) (us : List Value) :
    ∀ d ∈ unitsData b us, 0 < d.align ∧ d.align ∣ b.align := by
  intro d hd
  obtain ⟨u, -, hd⟩ := List.mem_flatMap.mp hd
  have hdvd := fieldData_align hb.fields u d hd
  exact ⟨Nat.pos_of_dvd_of_pos hdvd hb.align_pos, hdvd⟩

theorem layoutEnd_fieldData (h : Fits fs vs) (p : ℕ) :
    layoutEnd p (fieldData fs vs) = fieldsEnd fs p := by
  induction fs generalizing vs p with
  | nil => rfl
  | cons f fs ih =>
    cases f with
    | align c => exact ih h _
    | scalar c =>
      obtain ⟨v, vs', rfl, hv, h⟩ := h
      rw [fieldData, layoutEnd, fieldsEnd, List.headD_cons, List.tail_cons, hv]
      exact ih h _

/-! ### Bulk -/

/-- Units in bulk: behind each stands its padding. -/
def bulkData (b : Base) (us : List Value) : List Datum := unitsData b us ++ [⟨b.align, []⟩]

theorem unitsData_cons (b : Base) (u : Value) (us : List Value) :
    unitsData b (u :: us) = fieldData b.fields u ++ unitsData b us := rfl

theorem unitsData_append (b : Base) (us vs : List Value) :
    unitsData b (us ++ vs) = unitsData b us ++ unitsData b vs := List.flatMap_append

/-- The data of units begin with the alignment. -/
theorem bulkData_align (b : Base) (us : List Value) (ds : List Datum) :
    ∃ ds', bulkData b us ++ ds = ⟨b.align, []⟩ :: ds' := by
  cases us with
  | nil => exact ⟨_, rfl⟩
  | cons u us => exact ⟨_, rfl⟩

/-- The elements that are moved in bulk: the last structure is not. -/
def Base.bulkLen (b : Base) (n : ℕ) : ℕ := if b.kind = .struct then n - 1 else n

/-- The padding behind the last structure of an array is no more than what aligns a count. -/
def Base.Snug (b : Base) : Prop := alignUp b.unitSize 4 = alignUp (fieldsEnd b.fields 0) 4

/-- The image of a unit in memory. -/
def image (b : Base) (u : Value) : List Octet := layout 0 (fieldData b.fields u ++ [⟨b.align, []⟩])

theorem Base.Ok.length_image (hb : b.Ok) (hu : Fits b.fields u) :
    (image b u).length = b.unitSize := by
  have hdata : Aligned (fieldData b.fields u ++ [⟨b.align, []⟩]) := by
    intro d hd
    rcases List.mem_append.mp hd with hd | hd
    · exact Nat.pos_of_dvd_of_pos (fieldData_align hb.fields u d hd) hb.align_pos
    · rw [List.mem_singleton.mp hd]
      exact hb.align_pos
  have h := layoutEnd_eq _ hdata 0
  rw [Nat.zero_add] at h
  rw [image, ← h, layoutEnd_append, layoutEnd_fieldData hu]
  rfl

/-- At a multiple of the alignment, units in bulk are their images. -/
theorem Base.Ok.layout_bulk (hb : b.Ok) (us : List Value) (hus : ∀ u ∈ us, Fits b.fields u)
    (hp : b.align ∣ p) (ds : List Datum) :
    layout p (bulkData b us ++ ds) =
      (us.map (image b)).flatten ++ layout (p + us.length * b.unitSize) (⟨b.align, []⟩ :: ds) := by
  induction us generalizing p with
  | nil =>
    rw [List.map_nil, List.flatten_nil, List.nil_append, List.length_nil, Nat.zero_mul,
      Nat.add_zero]
    rfl
  | cons u us ih =>
    have hu := hus u List.mem_cons_self
    obtain ⟨ds', hds⟩ := bulkData_align b us ds
    have hshift := layout_shift (fieldData b.fields u) (fun d hd =>
      ⟨Nat.pos_of_dvd_of_pos (fieldData_align hb.fields u d hd) hb.align_pos,
        fieldData_align hb.fields u d hd⟩) hp 0
    rw [Nat.add_zero, layoutEnd_fieldData hu 0] at hshift
    have hsize : alignUp (p + fieldsEnd b.fields 0) b.align = p + b.unitSize :=
      alignUp_add_of_dvd hb.align_pos hp _
    have himage : image b u = layout 0 (fieldData b.fields u) ++
        List.replicate (b.unitSize - fieldsEnd b.fields 0) none := by
      rw [image, layout_append, layoutEnd_fieldData hu]
      simp [layout, Base.unitSize]
    have hp' : b.align ∣ p + b.unitSize := dvd_add hp (dvd_alignUp _ _)
    rw [show bulkData b (u :: us) ++ ds = fieldData b.fields u ++ (bulkData b us ++ ds) by
      rw [bulkData, unitsData_cons, List.append_assoc, List.append_assoc, bulkData,
        List.append_assoc], layout_append, hshift.1, hshift.2, hds, layout_align hb.align_pos,
      ← hds, hsize, ih (fun u hu => hus u (List.mem_cons_of_mem _ hu)) hp', List.map_cons,
      List.flatten_cons, himage,
      Nat.add_sub_add_left, List.length_cons, Nat.add_mul, Nat.one_mul, Nat.add_assoc p,
      Nat.add_comm b.unitSize]
    simp only [List.append_assoc]

/-! ### The receive buffers -/

/-- The receive side of `IDL_ms_t`.  The data of a buffer begin at a multiple of 8; `mp` is the
place in it.  `more` are the buffers that the transport has yet to hand out; `released` is
history. -/
structure Rcv where
  elt : Option ℕ
  buf : List Octet
  mp : ℕ
  more : List (List Octet)
  released : List ℕ
deriving DecidableEq

/-- The buffer is given back, if there are data in it. -/
def Rcv.dealloc (s : Rcv) : List ℕ :=
  match s.elt with
  | some i => if s.buf = [] then s.released else s.released ++ [i]
  | none => s.released

/-- `rpc_ss_ndr_unmar_check_buffer`. -/
def checkBuffer (s : Rcv) : Option Rcv :=
  if s.mp = s.buf.length then
    match s.elt, s.more with
    | some i, f :: more => some ⟨some (i + 1), f, 0, more, s.dealloc⟩
    | _, _ => none
  else some s

/-- `IDL_UNMAR_ALIGN_MP`. -/
def alignMp (a : ℕ) (s : Rcv) : Option Rcv :=
  if alignUp s.mp a ≤ s.buf.length then some { s with mp := alignUp s.mp a } else none

/-- Octets from the buffer; `none` where there are none. -/
def takeOctets (n : ℕ) (s : Rcv) : Option (List Octet × Rcv) :=
  if s.elt.isSome = true ∧ s.mp + n ≤ s.buf.length then
    some ((s.buf.drop s.mp).take n, { s with mp := s.mp + n })
  else none

/-- A value of octets that are determined. -/
def valueOf (l : List Octet) : Option (List UInt8) := l.mapM id

/-- `IDL_UNMAR_ALIGNED_SCALAR`. -/
def unmarScalar (a : ℕ) (s : Rcv) : Option (List UInt8 × Rcv) := do
  let s ← alignMp a s
  let s ← checkBuffer s
  let (l, s) ← takeOctets a s
  let v ← valueOf l
  some (v, s)

def copyLoop : ℕ → ℕ → Rcv → Option (List Octet × Rcv)
  | _, 0, s => some ([], s)
  | 0, _ + 1, _ => none
  | fuel + 1, n + 1, s => do
    let s ← checkBuffer s
    let (l, s) ← takeOctets (min (n + 1) (s.buf.length - s.mp)) s
    let (l', s) ← copyLoop fuel (n + 1 - l.length) s
    some (l ++ l', s)

/-- `rpc_ss_ndr_unmar_by_copying`; a round of its loop copies an octet at least. -/
def unmarByCopying (count size : ℕ) (s : Rcv) : Option (List Octet × Rcv) :=
  copyLoop (count * size % 2 ^ 32) (count * size % 2 ^ 32) s

/-- Each buffer has data, and all but the last have a multiple of 8 octets. -/
def FragsOk : List (List Octet) → Prop
  | [] => True
  | [f] => f ≠ []
  | f :: g :: l => f ≠ [] ∧ 8 ∣ f.length ∧ FragsOk (g :: l)

/-- At an offset of the stream, with the octets that follow. -/
structure At (s : Rcv) (p : ℕ) (rem : List Octet) : Prop where
  live : ∃ i, s.elt = some i ∧ s.released = List.range i
  le : s.mp ≤ s.buf.length
  mod : p % 8 = s.mp % 8
  frags : FragsOk (s.buf :: s.more)
  rem : rem = s.buf.drop s.mp ++ s.more.flatten

variable {s : Rcv} {rem x y : List Octet}

theorem FragsOk.ne_nil {f : List Octet} {l : List (List Octet)} (h : FragsOk (f :: l)) :
    f ≠ [] := by
  cases l with
  | nil => exact h
  | cons g l => exact h.1

theorem FragsOk.tail {f : List Octet} {l : List (List Octet)} (h : FragsOk (f :: l)) :
    FragsOk l := by
  cases l with
  | nil => trivial
  | cons g l => exact h.2.2

theorem FragsOk.dvd {f : List Octet} {l : List (List Octet)} (h : FragsOk (f :: l))
    (hl : l ≠ []) : 8 ∣ f.length := by
  cases l with
  | nil => exact absurd rfl hl
  | cons g l => exact h.2.1

theorem checkBuffer_spec (h : At s p rem) (hrem : rem ≠ []) :
    ∃ s', checkBuffer s = some s' ∧ At s' p rem ∧ s'.mp < s'.buf.length := by
  rw [checkBuffer]
  split
  case isTrue hend =>
    obtain ⟨i, helt, hreleased⟩ := h.live
    have hr := h.rem
    rw [hend, List.drop_length, List.nil_append] at hr
    cases hmore : s.more with
    | nil =>
      rw [hmore] at hr
      exact absurd hr hrem
    | cons f more =>
      have hfrags := h.frags
      have hmod := h.mod
      have hdvd := hfrags.dvd (by rw [hmore]; exact List.cons_ne_nil _ _)
      have htail := hfrags.tail
      rw [hmore] at htail
      rw [helt]
      refine ⟨_, rfl, ⟨⟨i + 1, rfl, ?_⟩, Nat.zero_le _, ?_, htail, ?_⟩,
        List.length_pos_of_ne_nil htail.ne_nil⟩
      · rw [Rcv.dealloc, helt, List.range_succ, ← hreleased]
        exact if_neg hfrags.ne_nil
      · show p % 8 = 0
        omega
      · rw [hr, hmore]
        rfl
  case isFalse hend => exact ⟨s, rfl, h, by have := h.le; omega⟩

theorem At.take (h : At s p (x ++ y)) (hx : s.mp + x.length ≤ s.buf.length) :
    ∃ s', takeOctets x.length s = some (x, s') ∧ At s' (p + x.length) y := by
  obtain ⟨i, helt, hreleased⟩ := h.live
  have hr := h.rem
  have hlen : x.length ≤ (s.buf.drop s.mp).length := by
    rw [List.length_drop]
    omega
  have htake : (s.buf.drop s.mp).take x.length = x := by
    have := congrArg (List.take x.length) hr
    rw [List.take_left, List.take_append_of_le_length hlen] at this
    exact this.symm
  have hdrop : y = s.buf.drop (s.mp + x.length) ++ s.more.flatten := by
    have := congrArg (List.drop x.length) hr
    rw [List.drop_left, List.drop_append_of_le_length hlen, List.drop_drop] at this
    exact this
  have hres : takeOctets x.length s = some (x, { s with mp := s.mp + x.length }) := by
    rw [takeOctets, if_pos ⟨by rw [helt]; rfl, hx⟩, htake]
  refine ⟨_, hres, ⟨i, helt, hreleased⟩, hx, ?_, h.frags, hdrop⟩
  have := h.mod
  show (p + x.length) % 8 = (s.mp + x.length) % 8
  omega

/-- What is before a multiple of an alignment lies in the buffer. -/
theorem At.within (h : At s p (x ++ y)) {n : ℕ} (hx : n = s.mp + x.length) (ha : a ∣ 8)
    (hn : s.more ≠ [] → n ≤ alignUp (s.buf.length) a) : n ≤ s.buf.length := by
  by_cases hmore : s.more = []
  · have hlen := congrArg List.length h.rem
    rw [hmore, List.flatten_nil, List.append_nil, List.length_drop, List.length_append] at hlen
    have := h.le
    omega
  · have hdvd := ha.trans (h.frags.dvd hmore)
    have := hn hmore
    rwa [alignUp_of_dvd (Nat.pos_of_dvd_of_pos ha (by norm_num)) hdvd] at this

theorem alignUp_sub_mod {q : ℕ} (ha : a ∣ 8) (h : p % 8 = q % 8) :
    alignUp p a - p = alignUp q a - q := by
  have hpos : 0 < a := Nat.pos_of_dvd_of_pos ha (by norm_num)
  have hp := alignUp_add_of_dvd hpos (ha.trans (Nat.dvd_mul_right 8 (p / 8))) (p % 8)
  have hq := alignUp_add_of_dvd hpos (ha.trans (Nat.dvd_mul_right 8 (q / 8))) (q % 8)
  rw [Nat.div_add_mod] at hp hq
  have := le_alignUp hpos (p % 8)
  have := Nat.div_add_mod p 8
  have := Nat.div_add_mod q 8
  rw [hp, hq, h]
  omega

theorem alignMp_spec (ha : a ∣ 8) (hx : x.length = alignUp p a - p) (h : At s p (x ++ y)) :
    ∃ s', alignMp a s = some s' ∧ At s' (alignUp p a) y := by
  have hpos : 0 < a := Nat.pos_of_dvd_of_pos ha (by norm_num)
  have hmp := le_alignUp hpos s.mp
  have hp := le_alignUp hpos p
  rw [alignUp_sub_mod ha h.mod] at hx
  have hle : alignUp s.mp a ≤ s.buf.length := by
    refine h.within (by omega) ha fun _ => ?_
    exact alignUp_le hpos (dvd_alignUp _ _) (h.le.trans (le_alignUp hpos _))
  obtain ⟨s', htake, hat⟩ := h.take (by omega)
  obtain ⟨i, helt, -⟩ := h.live
  rw [takeOctets, if_pos ⟨by rw [helt]; rfl, by omega⟩] at htake
  have heq := alignUp_sub_mod ha h.mod
  obtain rfl : _ = s' := congrArg Prod.snd (Option.some_inj.mp htake)
  rw [show p + x.length = alignUp p a by omega] at hat
  refine ⟨_, ?_, hat⟩
  rw [alignMp, if_pos hle]
  simp only [show s.mp + x.length = alignUp s.mp a by omega]

theorem valueOf_map (v : List UInt8) : valueOf (v.map some) = some v := by
  induction v with
  | nil => rfl
  | cons c v ih =>
    rw [valueOf] at ih
    rw [valueOf, List.map_cons, List.mapM_cons, ih]
    rfl

/-- A scalar is read where it was written. -/
theorem unmarScalar_spec (ha : a ∣ 8) {v : List UInt8} (hv : v.length = a) {ds : List Datum}
    (h : At s p (layout p (⟨a, v⟩ :: ds))) :
    ∃ s', unmarScalar a s = some (v, s') ∧
      At s' (alignUp p a + a) (layout (alignUp p a + a) ds) := by
  have hpos : 0 < a := Nat.pos_of_dvd_of_pos ha (by norm_num)
  rw [layout, List.append_assoc, hv] at h
  obtain ⟨s₁, h₁, hat₁⟩ := alignMp_spec ha (List.length_replicate ..) h
  obtain ⟨s₂, h₂, hat₂, hlt⟩ := checkBuffer_spec hat₁ (by
    intro hnil
    have := congrArg List.length hnil
    rw [List.length_append, List.length_map, hv, List.length_nil] at this
    omega)
  have hmp : a ∣ s₂.mp := by
    have hmod := hat₂.mod
    have := dvd_alignUp p a
    rw [Nat.dvd_iff_mod_eq_zero, ← Nat.mod_mod_of_dvd _ ha, ← hmod, Nat.mod_mod_of_dvd _ ha,
      ← Nat.dvd_iff_mod_eq_zero]
    exact this
  have hwithin : s₂.mp + a ≤ s₂.buf.length := by
    refine hat₂.within (by rw [List.length_map, hv]) ha fun hmore => ?_
    obtain ⟨q, hq⟩ := hmp
    obtain ⟨r, hr⟩ := ha.trans (hat₂.frags.dvd hmore)
    have hqr : q < r := by
      rw [hq, hr] at hlt
      exact Nat.lt_of_mul_lt_mul_left hlt
    have := Nat.mul_le_mul_left a hqr
    rw [Nat.mul_succ] at this
    refine le_trans ?_ (le_alignUp hpos _)
    omega
  obtain ⟨s₃, h₃, hat₃⟩ := hat₂.take (by rwa [List.length_map, hv])
  rw [List.length_map, hv] at h₃ hat₃
  refine ⟨s₃, ?_, hat₃⟩
  rw [unmarScalar, h₁]
  simp only [Option.bind_eq_bind, Option.bind_some, h₂, h₃, valueOf_map]

theorem copyLoop_spec {fuel n : ℕ} (hn : x.length = n) (hfuel : n ≤ fuel) (h : At s p (x ++ y)) :
    ∃ s', copyLoop fuel n s = some (x, s') ∧ At s' (p + n) y := by
  induction fuel generalizing n x s p with
  | zero =>
    obtain rfl : n = 0 := by omega
    obtain rfl := List.length_eq_zero_iff.mp hn
    exact ⟨s, rfl, h⟩
  | succ fuel ih =>
    cases n with
    | zero =>
      obtain rfl := List.length_eq_zero_iff.mp hn
      exact ⟨s, rfl, h⟩
    | succ n =>
      obtain ⟨s₁, h₁, hat₁, hlt⟩ := checkBuffer_spec h (by
        intro hnil
        have := congrArg List.length hnil
        rw [List.length_append, List.length_nil] at this
        omega)
      -- as much as there is in the buffer
      obtain ⟨k, hk⟩ : ∃ k, k = min (n + 1) (s₁.buf.length - s₁.mp) := ⟨_, rfl⟩
      have hlen : (x.take k).length = k := by
        rw [List.length_take]
        omega
      have hsplit : x ++ y = x.take k ++ (x.drop k ++ y) := by
        rw [← List.append_assoc, List.take_append_drop]
      rw [hsplit] at hat₁
      obtain ⟨s₂, h₂, hat₂⟩ := hat₁.take (by omega)
      rw [hlen] at h₂ hat₂
      obtain ⟨s₃, h₃, hat₃⟩ := ih (n := n + 1 - k) (by rw [List.length_drop, hn]) (by omega) hat₂
      refine ⟨s₃, ?_, ?_⟩
      · rw [copyLoop, h₁]
        simp only [Option.bind_eq_bind, Option.bind_some, ← hk, h₂, hlen, h₃,
          List.take_append_drop]
      · rwa [show p + k + (n + 1 - k) = p + (n + 1) by omega] at hat₃

/-! ### Elements -/

/-- The fields of a structure, one by one. -/
def unmarFields : List Field → Rcv → Option (List (List UInt8) × Rcv)
  | [], s => some ([], s)
  | .align a :: fs, s => do
    let s ← alignMp a s
    unmarFields fs s
  | .scalar a :: fs, s => do
    let (v, s) ← unmarScalar a s
    let (vs, s) ← unmarFields fs s
    some (v :: vs, s)

/-- The fields of a structure in memory. -/
def memFields (mem : List Octet) : List Field → ℕ → Option (List (List UInt8))
  | [], _ => some []
  | .align a :: fs, p => memFields mem fs (alignUp p a)
  | .scalar a :: fs, p => do
    let v ← valueOf ((mem.drop (alignUp p a)).take a)
    let vs ← memFields mem fs (alignUp p a + a)
    some (v :: vs)

theorem unmarFields_spec (hfs : ∀ f ∈ fs, f.bound ∣ 8) (hvs : Fits fs vs) {ds : List Datum}
    (h : At s p (layout p (fieldData fs vs ++ ds))) :
    ∃ s', unmarFields fs s = some (vs, s') ∧
      At s' (fieldsEnd fs p) (layout (fieldsEnd fs p) ds) := by
  induction fs generalizing vs s p with
  | nil =>
    obtain rfl : vs = [] := hvs
    exact ⟨s, rfl, h⟩
  | cons f fs ih =>
    have htail : ∀ f ∈ fs, f.bound ∣ 8 := fun f hf => hfs f (List.mem_cons_of_mem _ hf)
    cases f with
    | align c =>
      have hf : c ∣ 8 := hfs _ List.mem_cons_self
      rw [fieldData, List.cons_append, layout, List.map_nil, List.append_nil, List.length_nil,
        Nat.add_zero] at h
      obtain ⟨s₁, h₁, hat₁⟩ := alignMp_spec hf (List.length_replicate ..) h
      obtain ⟨s₂, h₂, hat₂⟩ := ih htail hvs hat₁
      exact ⟨s₂, by rw [unmarFields, h₁]; exact h₂, hat₂⟩
    | scalar c =>
      have hf : c ∣ 8 := hfs _ List.mem_cons_self
      obtain ⟨v, vs', rfl, hv, hvs⟩ := hvs
      obtain ⟨s₁, h₁, hat₁⟩ := unmarScalar_spec hf hv h
      obtain ⟨s₂, h₂, hat₂⟩ := ih htail hvs hat₁
      refine ⟨s₂, ?_, hat₂⟩
      rw [unmarFields, h₁]
      simp only [Option.bind_eq_bind, Option.bind_some, h₂]

theorem memFields_spec (mem : List Octet) (hfs : ∀ f ∈ fs, 0 < f.bound) (hvs : Fits fs vs)
    (h : mem.drop p = layout p (fieldData fs vs) ++ y) (hp : p ≤ mem.length) :
    memFields mem fs p = some vs := by
  induction fs generalizing vs p with
  | nil =>
    obtain rfl : vs = [] := hvs
    rfl
  | cons f fs ih =>
    have htail : ∀ f ∈ fs, 0 < f.bound := fun f hf => hfs f (List.mem_cons_of_mem _ hf)
    cases f with
    | align c =>
      have hc : p ≤ alignUp p c := le_alignUp (hfs _ List.mem_cons_self) p
      rw [fieldData, layout, List.map_nil, List.append_nil, List.length_nil, Nat.add_zero] at h
      have hlen := congrArg List.length h
      simp only [List.length_drop, List.length_append, List.length_replicate] at hlen
      refine ih htail hvs ?_ (by omega)
      have := congrArg (List.drop (alignUp p c - p)) h
      rwa [List.drop_drop, show p + (alignUp p c - p) = alignUp p c by omega, List.append_assoc,
        List.drop_left' (List.length_replicate ..)] at this
    | scalar c =>
      have hc : p ≤ alignUp p c := le_alignUp (hfs _ List.mem_cons_self) p
      obtain ⟨v, vs', rfl, hv, hvs⟩ := hvs
      rw [fieldData, layout, List.headD_cons, List.tail_cons, hv] at h
      have hlen := congrArg List.length h
      simp only [List.length_drop, List.length_append, List.length_replicate,
        List.length_map] at hlen
      have hdrop := congrArg (List.drop (alignUp p c - p)) h
      rw [List.drop_drop, show p + (alignUp p c - p) = alignUp p c by omega, List.append_assoc,
        List.append_assoc, List.drop_left' (List.length_replicate ..)] at hdrop
      have hdrop' := congrArg (List.drop c) hdrop
      rw [List.drop_drop, List.drop_left' (by rw [List.length_map, hv])] at hdrop'
      rw [memFields, hdrop, List.take_left' (by rw [List.length_map, hv]), valueOf_map]
      simp only [Option.bind_eq_bind, Option.bind_some, ih htail hvs hdrop' (by omega)]

/-- A number of items, one after the other. -/
def repeatM {σ α : Type} (f : σ → Option (α × σ)) : ℕ → σ → Option (List α × σ)
  | 0, s => some ([], s)
  | n + 1, s => do
    let (x, s) ← f s
    let (l, s) ← repeatM f n s
    some (x :: l, s)

/-- A structure in memory, and the memory behind it. -/
def memUnit (b : Base) (mem : List Octet) : Option (Value × List Octet) := do
  let u ← memFields mem b.fields 0
  some (u, mem.drop b.unitSize)

def memElts (b : Base) (k : ℕ) (mem : List Octet) : Option (List Elt) :=
  (repeatM (repeatM (memUnit b) b.units) k mem).map Prod.fst

/-- `rpc_ss_ndr_u_fix_or_conf_arr` for a number of elements; `bulk` is the optimization. -/
def unmarArr (b : Base) (bulk : Bool) (k : ℕ) (s : Rcv) : Option (List Elt × Rcv) :=
  if k = 0 then some ([], s)
  else if bulk then do
    let s ← alignMp b.align s
    if b.kind = .struct then
      -- the last one is without its padding
      let (mem, s) ← unmarByCopying (k - 1) b.size s
      let es ← memElts b (k - 1) mem
      let (u, s) ← unmarFields b.fields s
      some (es ++ [[u]], s)
    else
      let (mem, s) ← unmarByCopying k b.size s
      let es ← memElts b k mem
      some (es, s)
  else repeatM (repeatM (unmarFields b.fields) b.units) k s

section Repeat

variable {σ α : Type} {f : σ → Option (α × σ)} (Ready : σ → List α → Prop)

theorem repeatM_spec (hf : ∀ s x l, Ready s (x :: l) → ∃ s', f s = some (x, s') ∧ Ready s' l)
    (l l' : List α) {s : σ} (h : Ready s (l ++ l')) :
    ∃ s', repeatM f l.length s = some (l, s') ∧ Ready s' l' := by
  induction l generalizing s with
  | nil => exact ⟨s, rfl, h⟩
  | cons x l ih =>
    obtain ⟨s₁, h₁, hready₁⟩ := hf s x _ h
    obtain ⟨s₂, h₂, hready₂⟩ := ih hready₁
    refine ⟨s₂, ?_, hready₂⟩
    rw [List.length_cons, repeatM, h₁]
    simp only [Option.bind_eq_bind, Option.bind_some, h₂]

/-- Items of items. -/
theorem repeatM_repeatM (hf : ∀ s x l, Ready s (x :: l) → ∃ s', f s = some (x, s') ∧ Ready s' l)
    (n : ℕ) (l : List (List α)) (hl : ∀ x ∈ l, x.length = n) (l' : List α) {s : σ}
    (h : Ready s (l.flatten ++ l')) :
    ∃ s', repeatM (repeatM f n) l.length s = some (l, s') ∧ Ready s' l' := by
  induction l generalizing s with
  | nil => exact ⟨s, rfl, h⟩
  | cons x l ih =>
    rw [List.flatten_cons, List.append_assoc] at h
    obtain ⟨s₁, h₁, hready₁⟩ := repeatM_spec Ready hf x _ h
    rw [hl x List.mem_cons_self] at h₁
    obtain ⟨s₂, h₂, hready₂⟩ := ih (fun y hy => hl y (List.mem_cons_of_mem _ hy)) hready₁
    refine ⟨s₂, ?_, hready₂⟩
    rw [List.length_cons, repeatM, h₁]
    simp only [Option.bind_eq_bind, Option.bind_some, h₂]

end Repeat

theorem Base.Ok.fields8 (hb : b.Ok) : ∀ f ∈ b.fields, f.bound ∣ 8 := fun f hf =>
  (hb.fields f hf).trans hb.align

theorem Base.Ok.memUnit (hb : b.Ok) (hu : Fits b.fields u) (us : List Value) :
    memUnit b (((u :: us).map (image b)).flatten ++ y) =
      some (u, (us.map (image b)).flatten ++ y) := by
  have hmem := memFields_spec (p := 0) (((u :: us).map (image b)).flatten ++ y)
    (y := layout (fieldsEnd b.fields 0) [⟨b.align, []⟩] ++ ((us.map (image b)).flatten ++ y))
    (fun f hf => Nat.pos_of_dvd_of_pos (hb.fields f hf) hb.align_pos) hu
    (by
      rw [List.drop_zero, List.map_cons, List.flatten_cons, image, layout_append,
        layoutEnd_fieldData hu]
      simp only [List.append_assoc]) (Nat.zero_le _)
  rw [Pipe.memUnit, hmem]
  simp only [Option.bind_eq_bind, Option.bind_some]
  rw [List.map_cons, List.flatten_cons, List.append_assoc, List.drop_left' (hb.length_image hu)]

/-- Elements that were copied are those whose images were copied. -/
theorem Base.Ok.memElts (hb : b.Ok) {es : List Elt} (hes : ∀ e ∈ es, b.FitsElt e) :
    memElts b es.length (es.flatten.map (image b)).flatten = some es := by
  obtain ⟨s', hs', -⟩ := repeatM_repeatM (f := Pipe.memUnit b)
    (fun mem us => (∀ u ∈ us, Fits b.fields u) ∧
      mem = (us.map (image b)).flatten ++ ([] : List Octet))
    (by
      rintro mem u us ⟨hus, rfl⟩
      exact ⟨_, hb.memUnit (hus u List.mem_cons_self) us,
        fun v hv => hus v (List.mem_cons_of_mem _ hv), rfl⟩)
    b.units es (fun e he => (hes e he).1) [] (s := (es.flatten.map (image b)).flatten)
    ⟨fun u hu => by
      rw [List.append_nil] at hu
      obtain ⟨e, he, hu⟩ := List.mem_flatten.mp hu
      exact (hes e he).2 u hu, by rw [List.append_nil, List.append_nil]⟩
  rw [Pipe.memElts, hs']
  rfl

theorem Base.length_flatten {es : List Elt} (hes : ∀ e ∈ es, b.FitsElt e) :
    es.flatten.length = es.length * b.units := by
  induction es with
  | nil => exact (Nat.zero_mul _).symm
  | cons e es ih =>
    rw [List.flatten_cons, List.length_append, ih fun e he => hes e (List.mem_cons_of_mem _ he),
      (hes e List.mem_cons_self).1, List.length_cons, Nat.add_mul, Nat.one_mul, Nat.add_comm]

theorem Base.Ok.length_images (hb : b.Ok) {us : List Value} (hus : ∀ u ∈ us, Fits b.fields u) :
    (us.map (image b)).flatten.length = us.length * b.unitSize := by
  induction us with
  | nil => rw [List.map_nil, List.flatten_nil, List.length_nil, List.length_nil, Nat.zero_mul]
  | cons u us ih =>
    rw [List.map_cons, List.flatten_cons, List.length_append,
      ih fun u hu => hus u (List.mem_cons_of_mem _ hu), hb.length_image (hus u List.mem_cons_self),
      List.length_cons, Nat.add_mul, Nat.one_mul, Nat.add_comm]

theorem Base.fits_flatten {es : List Elt} (hes : ∀ e ∈ es, b.FitsElt e) :
    ∀ u ∈ es.flatten, Fits b.fields u := by
  intro u hu
  obtain ⟨e, he, hu⟩ := List.mem_flatten.mp hu
  exact (hes e he).2 u hu

/-- What a number of elements takes up. -/
theorem Base.Ok.images_size (hb : b.Ok) (hpacked : b.Packed) {es : List Elt}
    (hes : ∀ e ∈ es, b.FitsElt e) :
    (es.flatten.map (image b)).flatten.length = es.length * b.size := by
  rw [hb.length_images (Base.fits_flatten hes), Base.length_flatten hes, hpacked, Nat.mul_assoc]

/-- Copying takes the images of elements. -/
theorem Base.Ok.copied (hb : b.Ok) (hpacked : b.Packed) {es : List Elt}
    (hes : ∀ e ∈ es, b.FitsElt e) (hsize : es.length * b.size < 2 ^ 32) (hp : b.align ∣ p)
    (ds : List Datum) (h : At s p (layout p (bulkData b es.flatten ++ ds))) :
    ∃ s' q, unmarByCopying es.length b.size s = some ((es.flatten.map (image b)).flatten, s') ∧
      b.align ∣ q ∧ At s' q (layout q (⟨b.align, []⟩ :: ds)) := by
  rw [hb.layout_bulk _ (Base.fits_flatten hes) hp] at h
  obtain ⟨s', hs', hat⟩ := copyLoop_spec (hb.images_size hpacked hes) le_rfl h
  rw [Base.length_flatten hes, Nat.mul_assoc, ← hpacked] at hat
  refine ⟨s', _, ?_, ?_, hat⟩
  · rw [unmarByCopying, Nat.mod_eq_of_lt hsize, hs']
  · rw [hpacked]
    exact dvd_add hp (((dvd_alignUp _ _).mul_left _).mul_left _)

/-- At a multiple of it, an alignment adds nothing. -/
theorem layout_of_dvd (ha : 0 < a) (hp : a ∣ p) (ds : List Datum) :
    layout p (⟨a, []⟩ :: ds) = layout p ds := by
  rw [layout, alignUp_of_dvd ha hp, Nat.sub_self, List.length_nil, Nat.add_zero]
  rfl

/-- Scalars have no padding. -/
theorem Base.Ok.scalars_end (hb : b.Ok) (hkind : b.kind = .scalar) (us : List Value)
    (hus : ∀ u ∈ us, Fits b.fields u) (hp : b.align ∣ p) :
    b.align ∣ layoutEnd p (unitsData b us) := by
  induction us generalizing p with
  | nil => exact hp
  | cons u us ih =>
    rw [unitsData_cons, layoutEnd_append, layoutEnd_fieldData (hus u List.mem_cons_self)]
    refine ih (fun v hv => hus v (List.mem_cons_of_mem _ hv)) ?_
    rw [Base.fields, hb.scalar hkind]
    exact dvd_add (dvd_alignUp _ _) dvd_rfl

theorem eltsData_append (b : Base) (es es' : List Elt) :
    eltsData b (es ++ es') = eltsData b es ++ eltsData b es' := by
  rw [eltsData, List.flatten_append, unitsData_append]
  rfl

theorem Base.Ok.eltsData_align (hb : b.Ok) {es : List Elt} (hes : ∀ e ∈ es, b.FitsElt e)
    (hne : es ≠ []) : ∃ ds, eltsData b es = ⟨b.align, []⟩ :: ds := by
  obtain ⟨e, es', rfl⟩ := List.exists_cons_of_ne_nil hne
  have hlen := (hes e List.mem_cons_self).1
  have hpos := hb.pos
  cases e with
  | nil =>
    rw [List.length_nil] at hlen
    omega
  | cons u e => exact ⟨_, rfl⟩

/-- Elements of other types than structures, in bulk. -/
theorem Base.Ok.bulk_split (hb : b.Ok) (hkind : b.kind ≠ .struct) (wire : Bool)
    (hwire : b.kind = .array → wire = true) (es es' : List Elt) (hes : ∀ e ∈ es, b.FitsElt e)
    (hes' : ∀ e ∈ es', b.FitsElt e) (ds : List Datum) (hp : b.align ∣ p) :
    ∃ ds', layout p (eltsData b (es ++ es') ++ (trail b wire ++ ds)) =
        layout p (bulkData b es.flatten ++ ds') ∧
      ∀ q, b.align ∣ q → layout q (⟨b.align, []⟩ :: ds') =
        layout q (eltsData b es' ++ ((if es' = [] then [] else trail b wire) ++ ds)) := by
  by_cases hnil : es' = []
  · subst hnil
    refine ⟨ds, ?_, fun q hq => layout_of_dvd hb.align_pos hq ds⟩
    rw [List.append_nil, bulkData, List.append_assoc]
    by_cases harray : b.kind = .array
    · rw [trail, if_pos ⟨hwire harray, harray⟩]
      rfl
    · have hscalar : b.kind = .scalar := by
        cases hk : b.kind with
        | scalar => rfl
        | struct => exact absurd hk hkind
        | array => exact absurd hk harray
      rw [trail, if_neg fun h => harray h.2, List.nil_append, layout_append,
        layout_append (unitsData b es.flatten)]
      congr 1
      exact (layout_of_dvd hb.align_pos
        (hb.scalars_end hscalar _ (Base.fits_flatten hes) hp) ds).symm
  · obtain ⟨ds', hds'⟩ := hb.eltsData_align hes' hnil
    refine ⟨ds' ++ (trail b wire ++ ds), ?_, fun q _ => ?_⟩
    · rw [eltsData_append, hds', bulkData, List.append_assoc, List.append_assoc]
      rfl
    · rw [if_neg hnil, hds']
      rfl

/-- The receiver has the elements, and is at those that follow. -/
theorem Base.Ok.unmarArr_spec (hb : b.Ok) {bulk wire : Bool} (hbulk : bulk = true → b.Packed)
    (hsame : b.kind = .array → bulk = wire) {es es' : List Elt} (hne : es ≠ [])
    (hes : ∀ e ∈ es, b.FitsElt e) (hes' : ∀ e ∈ es', b.FitsElt e)
    (hsize : bulk = true → es.length * b.size < 2 ^ 32) (ds : List Datum)
    (h : At s p (layout p (eltsData b (es ++ es') ++ (trail b wire ++ ds)))) :
    ∃ s' q, unmarArr b bulk es.length s = some (es, s') ∧
      At s' q (layout q (eltsData b es' ++ ((if es' = [] then [] else trail b wire) ++ ds))) := by
  have hlen : es.length ≠ 0 := fun h => hne (List.length_eq_zero_iff.mp h)
  rw [unmarArr, if_neg hlen]
  cases hb' : bulk with
  | false =>
    have htrail : trail b wire = [] := by
      rw [trail, if_neg]
      rintro ⟨hw, hk⟩
      rw [← hsame hk, hb'] at hw
      cases hw
    rw [htrail, List.nil_append] at h
    obtain ⟨s', hs', -, q, hat⟩ := repeatM_repeatM (f := unmarFields b.fields)
      (fun s us => (∀ u ∈ us, Fits b.fields u) ∧
        ∃ p, At s p (layout p (unitsData b us ++ ds)))
      (by
        rintro s u us ⟨hus, p, hat⟩
        rw [unitsData_cons, List.append_assoc] at hat
        obtain ⟨s', hs', hat'⟩ := unmarFields_spec hb.fields8 (hus u List.mem_cons_self) hat
        exact ⟨s', hs', fun v hv => hus v (List.mem_cons_of_mem _ hv), _, hat'⟩)
      b.units es (fun e he => (hes e he).1) es'.flatten (s := s)
      ⟨fun u hu => by
        rcases List.mem_append.mp hu with hu | hu
        · exact Base.fits_flatten hes u hu
        · exact Base.fits_flatten hes' u hu, p, by rwa [← List.flatten_append]⟩
    refine ⟨s', q, hs', ?_⟩
    rw [htrail, ite_self]
    exact hat
  | true =>
    have hpacked := hbulk hb'
    have hsize := hsize hb'
    obtain ⟨ds₁, hds₁⟩ := hb.eltsData_align hes hne
    rw [eltsData_append, hds₁, List.append_assoc, List.cons_append, layout_align hb.align_pos,
      ← List.cons_append, ← hds₁, ← List.append_assoc, ← eltsData_append] at h
    obtain ⟨s₁, h₁, hat₁⟩ := alignMp_spec hb.align (List.length_replicate ..) h
    have hp := dvd_alignUp p b.align
    rw [if_pos rfl, h₁]
    by_cases hkind : b.kind = .struct
    · have htrail : trail b wire = [] := if_neg fun hw => by
        rw [hkind] at hw
        cases hw.2
      obtain ⟨init, e, rfl⟩ := List.eq_nil_or_concat' es |>.resolve_left hne
      have hinit : ∀ e ∈ init, b.FitsElt e := fun e he => hes e (List.mem_append_left _ he)
      have he := hes e (List.mem_append_right _ List.mem_cons_self)
      obtain ⟨u, rfl⟩ : ∃ u, e = [u] := by
        rw [← List.length_eq_one_iff, he.1, hb.units (by rw [hkind]; decide)]
      have hu := he.2 u List.mem_cons_self
      rw [htrail, List.nil_append, show eltsData b (init ++ [[u]] ++ es') ++ ds =
        bulkData b init.flatten ++ (fieldData b.body u ++ (eltsData b es' ++ ds)) by
          rw [eltsData_append, eltsData_append, bulkData]
          simp [eltsData, unitsData, Base.fields, fieldData]] at hat₁
      rw [List.length_append, List.length_singleton] at hsize
      obtain ⟨s₂, q, h₂, -, hat₂⟩ := hb.copied hpacked hinit
        (lt_of_le_of_lt (Nat.mul_le_mul_right _ (Nat.le_succ _)) hsize) hp _ hat₁
      obtain ⟨s₃, h₃, hat₃⟩ := unmarFields_spec hb.fields8 hu hat₂
      refine ⟨s₃, fieldsEnd b.fields q, ?_, ?_⟩
      · simp only [Option.bind_eq_bind, Option.bind_some, hkind, if_true, List.length_append,
          List.length_singleton, Nat.add_sub_cancel, h₂, hb.memElts hinit, h₃]
      · rw [htrail, ite_self]
        exact hat₃
    · have hwire : b.kind = .array → wire = true := fun hk => by rw [← hsame hk, hb']
      obtain ⟨ds', hlay, hrest⟩ := hb.bulk_split hkind wire hwire es es' hes hes' ds hp
      rw [hlay] at hat₁
      obtain ⟨s₂, q, h₂, hq, hat₂⟩ := hb.copied hpacked hes hsize hp _ hat₁
      rw [hrest q hq] at hat₂
      refine ⟨s₂, q, ?_, hat₂⟩
      simp only [Option.bind_eq_bind, Option.bind_some, hkind, if_false, h₂, hb.memElts hes]

/-- For powers of two, the smaller alignment is done by the greater. -/
theorem alignUp_alignUp {c : ℕ} (hc : 0 < c) (hac : a ∣ c) (p : ℕ) :
    alignUp (alignUp p a) c = alignUp p c := by
  have ha : 0 < a := Nat.pos_of_dvd_of_pos hac hc
  refine le_antisymm ?_ ?_
  · refine alignUp_le hc (dvd_alignUp _ _) ?_
    exact alignUp_le ha (hac.trans (dvd_alignUp _ _)) (le_alignUp hc p)
  · exact alignUp_le hc (dvd_alignUp _ _) ((le_alignUp ha p).trans (le_alignUp hc _))

theorem Base.Ok.align_cases (hb : b.Ok) : b.align ∣ 4 ∨ b.align = 8 := by
  have hle : b.align ≤ 8 := Nat.le_of_dvd (by norm_num) hb.align
  have hpos := hb.align_pos
  have hdvd := hb.align
  obtain ⟨a, ha⟩ : ∃ a, a = b.align := ⟨_, rfl⟩
  rw [← ha] at hle hpos hdvd ⊢
  interval_cases a <;> omega

/-- Units end as far behind a multiple of their alignment as the first does. -/
theorem Base.Ok.units_end (hb : b.Ok) {us : List Value} (hne : us ≠ [])
    (hus : ∀ u ∈ us, Fits b.fields u) (p : ℕ) :
    ∃ q, b.align ∣ q ∧ layoutEnd p (unitsData b us) = q + fieldsEnd b.fields 0 := by
  obtain ⟨init, u, rfl⟩ := List.eq_nil_or_concat' us |>.resolve_left hne
  have hu := hus u (List.mem_append_right _ List.mem_cons_self)
  obtain ⟨q, hq⟩ : ∃ q, q = alignUp (layoutEnd p (unitsData b init)) b.align := ⟨_, rfl⟩
  have hdvd : b.align ∣ q := hq ▸ dvd_alignUp _ _
  refine ⟨q, hdvd, ?_⟩
  have hshift := (layout_shift (fieldData b.fields u) (fun d hd =>
    ⟨Nat.pos_of_dvd_of_pos (fieldData_align hb.fields u d hd) hb.align_pos,
      fieldData_align hb.fields u d hd⟩) hdvd 0).2
  rw [layoutEnd_fieldData hu, layoutEnd_fieldData hu] at hshift
  rw [← hshift, unitsData_append, layoutEnd_append,
    show unitsData b [u] = fieldData b.fields u from List.flatMap_singleton _ _,
    layoutEnd_fieldData hu, Base.fields, fieldsEnd, fieldsEnd, ← hq, Nat.add_zero,
    alignUp_of_dvd hb.align_pos hdvd]

/-- Before a count, a padding that is snug may be there or not. -/
theorem Base.Ok.snug_trail (hb : b.Ok) (hsnug : b.Snug) {es : List Elt} (hne : es ≠ [])
    (hes : ∀ e ∈ es, b.FitsElt e) (w w' : Bool) (v : List UInt8) (ds : List Datum) (p : ℕ) :
    layout p (eltsData b es ++ (trail b w ++ ⟨4, v⟩ :: ds)) =
      layout p (eltsData b es ++ (trail b w' ++ ⟨4, v⟩ :: ds)) := by
  have hflat : es.flatten ≠ [] := by
    intro hnil
    have hlen := Base.length_flatten hes
    rw [hnil, List.length_nil] at hlen
    have := Nat.mul_pos (List.length_pos_of_ne_nil hne) hb.pos
    omega
  obtain ⟨q, hq, hend⟩ := hb.units_end hflat (Base.fits_flatten hes) p
  have halign : alignUp (alignUp (q + fieldsEnd b.fields 0) b.align) 4 =
      alignUp (q + fieldsEnd b.fields 0) 4 := by
    rcases hb.align_cases with h4 | h8
    · exact alignUp_alignUp (by norm_num) h4 _
    · have hq4 : 4 ∣ q := (by rw [h8]; norm_num : (4 : ℕ) ∣ b.align).trans hq
      rw [alignUp_add_of_dvd hb.align_pos hq, alignUp_add_of_dvd (by norm_num) hq4,
        alignUp_add_of_dvd (by norm_num) hq4]
      exact congrArg (q + ·) hsnug
  have hle := le_alignUp hb.align_pos (q + fieldsEnd b.fields 0)
  have hle' := le_alignUp (by norm_num : 0 < 4) (alignUp (q + fieldsEnd b.fields 0) b.align)
  have hone : ∀ w : Bool, layout (q + fieldsEnd b.fields 0) (trail b w ++ ⟨4, v⟩ :: ds) =
      layout (q + fieldsEnd b.fields 0) (⟨4, v⟩ :: ds) := by
    intro w
    rw [trail]
    split
    · rw [List.singleton_append, layout, layout, layout, List.map_nil, List.append_nil,
        List.length_nil, Nat.add_zero, halign, ← List.append_assoc, ← List.append_assoc,
        List.replicate_append_replicate]
      rw [halign] at hle'
      dsimp only
      rw [show alignUp (q + fieldsEnd b.fields 0) b.align - (q + fieldsEnd b.fields 0) +
        (alignUp (q + fieldsEnd b.fields 0) 4 - alignUp (q + fieldsEnd b.fields 0) b.align) =
          alignUp (q + fieldsEnd b.fields 0) 4 - (q + fieldsEnd b.fields 0) by omega]
    · rfl
  rw [layout_append, layout_append (eltsData b es), eltsData, hend, hone w, hone w']

/-- Where the sides differ about arrays, it is enough that the padding is snug. -/
theorem Base.Ok.unmarArr_part (hb : b.Ok) {bulk wire : Bool} (hbulk : bulk = true → b.Packed)
    (hsame : b.kind = .array → bulk = wire ∨ b.Snug) {es es' : List Elt} (hne : es ≠ [])
    (hes : ∀ e ∈ es, b.FitsElt e) (hes' : ∀ e ∈ es', b.FitsElt e)
    (hsize : bulk = true → es.length * b.size < 2 ^ 32) (v : List UInt8) (ds : List Datum)
    (h : At s p (layout p (eltsData b (es ++ es') ++ (trail b wire ++ ⟨4, v⟩ :: ds)))) :
    ∃ s' q, unmarArr b bulk es.length s = some (es, s') ∧ At s' q
      (layout q (eltsData b es' ++ ((if es' = [] then [] else trail b wire) ++ ⟨4, v⟩ :: ds))) := by
  by_cases hagree : b.kind = .array → bulk = wire
  · exact hb.unmarArr_spec hbulk hagree hne hes hes' hsize _ h
  · obtain ⟨hkind, hdiffer⟩ := Classical.not_imp.mp hagree
    have hsnug := (hsame hkind).resolve_left hdiffer
    rw [hb.snug_trail hsnug (List.append_ne_nil_of_left_ne_nil hne _) (fun e he =>
      (List.mem_append.mp he).elim (hes e) (hes' e)) wire bulk] at h
    obtain ⟨s', q, hs', hat⟩ := hb.unmarArr_spec hbulk (fun _ => rfl) hne hes hes' hsize _ h
    refine ⟨s', q, hs', ?_⟩
    by_cases hnil : es' = []
    · rw [if_pos hnil] at hat ⊢
      exact hat
    · rw [if_neg hnil] at hat ⊢
      rwa [hb.snug_trail hsnug hnil hes' bulk wire] at hat

/-! ### Marshalling -/

/-- `IDL_MARSH_ALIGN_MP`; the padding is not written. -/
def marshAlign (a : ℕ) (out : List Octet) : List Octet :=
  out ++ List.replicate (alignUp out.length a - out.length) none

def marshScalar (a : ℕ) (v : List UInt8) (out : List Octet) : List Octet :=
  marshAlign a out ++ v.map some

/-- The fields of a structure, one by one. -/
def marshFields : List Field → List (List UInt8) → List Octet → List Octet
  | [], _, out => out
  | .align a :: fs, vs, out => marshFields fs vs (marshAlign a out)
  | .scalar a :: fs, vs, out => marshFields fs vs.tail (marshScalar a (vs.headD []) out)

/-- `rpc_ss_ndr_marsh_by_pointing` or `rpc_ss_ndr_marsh_by_copying`. -/
def marshMem (count size : ℕ) (mem out : List Octet) : List Octet :=
  out ++ mem.take (count * size % 2 ^ 32)

/-- The memory of elements. -/
def memory (b : Base) (es : List Elt) : List Octet := (es.flatten.map (image b)).flatten

/-- `rpc_ss_ndr_m_fix_or_conf_arr`; `bulk` is the optimization. -/
def marshArr (b : Base) (bulk : Bool) (es : List Elt) (out : List Octet) : List Octet :=
  if es.length = 0 then out
  else if bulk then
    let out := marshAlign b.align out
    if b.kind = .struct then
      -- the last one is without its padding
      let out := marshMem (es.length - 1) b.size (memory b es) out
      es.getLast?.toList.flatten.foldl (fun out u => marshFields b.fields u out) out
    else marshMem es.length b.size (memory b es) out
  else es.flatten.foldl (fun out u => marshFields b.fields u out) out

theorem marshFields_eq (hfs : ∀ f ∈ fs, 0 < f.bound) (hvs : Fits fs vs) (out : List Octet) :
    marshFields fs vs out = out ++ layout out.length (fieldData fs vs) := by
  induction fs generalizing vs out with
  | nil => exact (List.append_nil out).symm
  | cons f fs ih =>
    have htail : ∀ f ∈ fs, 0 < f.bound := fun f hf => hfs f (List.mem_cons_of_mem _ hf)
    cases f with
    | align c =>
      have hc : out.length ≤ alignUp out.length c := le_alignUp (hfs _ List.mem_cons_self) _
      rw [marshFields, ih htail hvs, fieldData, layout, marshAlign, List.length_append,
        List.length_replicate, Nat.add_sub_cancel' hc]
      simp
    | scalar c =>
      have hc : out.length ≤ alignUp out.length c := le_alignUp (hfs _ List.mem_cons_self) _
      obtain ⟨v, vs', rfl, hv, hvs⟩ := hvs
      rw [marshFields, List.tail_cons, ih htail hvs, fieldData, layout, marshScalar, marshAlign,
        List.length_append, List.length_append, List.length_replicate, Nat.add_sub_cancel' hc]
      simp

theorem Base.Ok.marshUnits (hb : b.Ok) {us : List Value} (hus : ∀ u ∈ us, Fits b.fields u)
    (out : List Octet) :
    us.foldl (fun out u => marshFields b.fields u out) out =
      out ++ layout out.length (unitsData b us) := by
  induction us generalizing out with
  | nil => exact (List.append_nil out).symm
  | cons u us ih =>
    have hu := hus u List.mem_cons_self
    have hpos : ∀ f ∈ b.fields, 0 < f.bound := fun f hf =>
      Nat.pos_of_dvd_of_pos (hb.fields f hf) hb.align_pos
    have hend := layoutEnd_eq (fieldData b.fields u) (fun d hd =>
      Nat.pos_of_dvd_of_pos (fieldData_align hb.fields u d hd) hb.align_pos) out.length
    rw [List.foldl_cons, marshFields_eq hpos hu, ih fun v hv => hus v (List.mem_cons_of_mem _ hv),
      unitsData_cons, layout_append, hend, List.length_append, List.append_assoc]

theorem length_marshAlign (ha : 0 < a) (out : List Octet) :
    (marshAlign a out).length = alignUp out.length a := by
  have := le_alignUp ha out.length
  rw [marshAlign, List.length_append, List.length_replicate]
  omega

/-- What is marshalled is what would be marshalled one by one, with the padding that ends arrays
in bulk. -/
theorem Base.Ok.marshArr_eq (hb : b.Ok) {bulk : Bool} (hbulk : bulk = true → b.Packed)
    {es : List Elt} (hne : es ≠ []) (hes : ∀ e ∈ es, b.FitsElt e)
    (hsize : bulk = true → b.bulkLen es.length * b.size < 2 ^ 32) (out : List Octet) :
    marshArr b bulk es out = out ++ layout out.length (eltsData b es ++ trail b bulk) := by
  have hlen : es.length ≠ 0 := fun h => hne (List.length_eq_zero_iff.mp h)
  rw [marshArr, if_neg hlen]
  cases hb' : bulk with
  | false =>
    have htrail : trail b false = [] := if_neg fun h => Bool.false_ne_true h.1
    rw [htrail, List.append_nil]
    exact hb.marshUnits (Base.fits_flatten hes) out
  | true =>
    have hpacked := hbulk hb'
    have hsize := hsize hb'
    have hp := dvd_alignUp out.length b.align
    obtain ⟨ds₁, hds₁⟩ := hb.eltsData_align hes hne
    have hstart : out ++ layout out.length (eltsData b es ++ trail b true) =
        marshAlign b.align out ++
          layout (alignUp out.length b.align) (eltsData b es ++ trail b true) := by
      rw [hds₁, List.cons_append, layout_align hb.align_pos, marshAlign, List.append_assoc]
    rw [if_pos rfl, hstart]
    by_cases hkind : b.kind = .struct
    · have htrail : trail b true = [] := if_neg fun hw => by
        rw [hkind] at hw
        cases hw.2
      obtain ⟨init, e, rfl⟩ := List.eq_nil_or_concat' es |>.resolve_left hne
      have hinit : ∀ e ∈ init, b.FitsElt e := fun e he => hes e (List.mem_append_left _ he)
      have he := hes e (List.mem_append_right _ List.mem_cons_self)
      obtain ⟨u, rfl⟩ : ∃ u, e = [u] := by
        rw [← List.length_eq_one_iff, he.1, hb.units (by rw [hkind]; decide)]
      have hu := he.2 u List.mem_cons_self
      rw [Base.bulkLen, if_pos hkind, List.length_append, List.length_singleton,
        Nat.add_sub_cancel] at hsize
      have hmem : marshMem ((init ++ [[u]]).length - 1) b.size (memory b (init ++ [[u]]))
          (marshAlign b.align out) = marshAlign b.align out ++ memory b init := by
        have himages := hb.images_size hpacked hinit
        rw [marshMem, List.length_append, List.length_singleton, Nat.add_sub_cancel,
          Nat.mod_eq_of_lt hsize, memory, List.flatten_append, List.map_append, List.flatten_append,
          List.take_left' himages]
        rfl
      have hdata : eltsData b (init ++ [[u]]) =
          bulkData b init.flatten ++ fieldData b.body u := by
        rw [eltsData_append, bulkData]
        simp [eltsData, unitsData, Base.fields, fieldData]
      have hlast : (init ++ [[u]]).getLast?.toList.flatten = [u] := by
        rw [List.getLast?_concat]
        rfl
      simp only [hkind, if_true, hmem, hlast]
      rw [htrail, List.append_nil, hdata, hb.layout_bulk _ (Base.fits_flatten hinit) hp,
        hb.marshUnits (fun v hv => by rwa [List.mem_singleton.mp hv])]
      have hend : (marshAlign b.align out ++ memory b init).length =
          alignUp out.length b.align + init.flatten.length * b.unitSize := by
        rw [List.length_append, length_marshAlign hb.align_pos, memory,
          hb.length_images (Base.fits_flatten hinit)]
      rw [hend, List.append_assoc]
      simp [memory, unitsData, Base.fields, fieldData]
    · obtain ⟨ds', hlay, hrest⟩ := hb.bulk_split hkind true (fun _ => rfl) es [] hes
        (fun e he => (List.not_mem_nil he).elim) [] hp
      rw [List.append_nil, List.append_nil] at hlay
      have hmem : marshMem es.length b.size (memory b es) (marshAlign b.align out) =
          marshAlign b.align out ++ memory b es := by
        rw [Base.bulkLen, if_neg hkind] at hsize
        rw [marshMem, Nat.mod_eq_of_lt hsize, memory, List.take_of_length_le
          (le_of_eq (hb.images_size hpacked hes))]
      simp only [hkind, if_false, hmem]
      have hq : b.align ∣ alignUp out.length b.align + es.flatten.length * b.unitSize :=
        dvd_add hp ((dvd_alignUp _ _).mul_left _)
      rw [hlay, hb.layout_bulk _ (Base.fits_flatten hes) hp, hrest _ hq]
      simp [memory, eltsData, unitsData, layout]

end Pipe

end Idl
