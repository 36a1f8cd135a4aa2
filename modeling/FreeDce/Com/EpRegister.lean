/-
Registration of endpoints (`ep_register`, `rpc_ep_unregister` in comep.c).

A server registers the cross product of its bindings, each of which has several
towers, and its objects.  If that fails on the way, what was registered is taken
back: first all bindings that were completed, then, from what three counters say,
the objects of the binding at which it stopped.

* `registerHands_append`, `registerHands_stop` — how far the nested loops get, and
  what they leave in the counters, for every place at which they can stop;
* `rolledBack_iff` — the roll-back is complete and stays inside the vectors if and
  only if the place is the first tower of its binding, or what the counters miss
  is covered otherwise (`not_rolledBack`).
-/
import Mathlib

namespace Ep

/-- The statuses that decide a branch. -/
inductive Status
  | ok | noInterfaces | noBindings | invalidBinding | commFailure | callCancelled | noMemory
  | cantPerformOp
deriving DecidableEq, Repr

/-- What the routines call: the checks and conversions of a binding of type `H`, the
conversion of a tower reference `R` to a tower `T`, and the status of the `ept_insert`
for given values of `curr_hand`, `curr_tower` and `curr_obj`. -/
structure World (H R T : Type) where
  hasEndpoint : H → Bool
  getEpBinding : H → Status
  towerRefVec : H → List R × Status
  towerFromRef : R → T × Status
  eptInsert : ℕ → ℕ → ℕ → Status

/-- The endpoint map, and the pairs of an object and a tower that were inserted and
deleted so far. -/
structure Book (U T : Type) where
  map : List (U × T) := []
  inserted : List (U × T) := []
  deleted : List (U × T) := []
deriving Repr

section Routines

variable {H R T U : Type} [DecidableEq T] [DecidableEq U]

def Book.insert (bk : Book U T) (p : U × T) : Book U T :=
  { bk with map := bk.map ++ [p], inserted := bk.inserted ++ [p] }

def Book.delete (bk : Book U T) (p : U × T) : Book U T :=
  { bk with map := bk.map.filter (· ≠ p), deleted := bk.deleted ++ [p] }

variable (w : World H R T) (nilUuid : U)

/-- A uuid vector; a NULL pointer and a vector of length 0 stand for the nil uuid alone. -/
def uuids (objs : Option (List U)) : List U := objs.getD []

/-! ### Unregistering -/

/-- The loop over the objects of `rpc_ep_unregister`. -/
def unregisterTower (objs : Option (List U)) (tower : T) (bk : Book U T) : Book U T :=
  match uuids objs with
  | [] => bk.delete (nilUuid, tower)
  | u :: us => (u :: us).foldl (fun bk u => bk.delete (u, tower)) bk

/-- The loop over the towers of a binding; one that does not convert is passed over. -/
def unregisterTowers (objs : Option (List U)) : List R → Book U T → Book U T
  | [], bk => bk
  | r :: rs, bk =>
    if (w.towerFromRef r).2 = .ok then
      unregisterTowers objs rs (unregisterTower nilUuid objs (w.towerFromRef r).1 bk)
    else unregisterTowers objs rs bk

/-- The loop over the bindings. -/
def unregisterHands (objs : Option (List U)) : List (Option H) → Book U T → Book U T
  | [], bk => bk
  | none :: bs, bk => unregisterHands objs bs bk
  | some b :: bs, bk =>
    if (w.towerRefVec b).2 = .ok then
      unregisterHands objs bs (unregisterTowers w nilUuid objs (w.towerRefVec b).1 bk)
    else unregisterHands objs bs bk

/-- The checks at the start of both routines, and the binding to the mapper. -/
def checkBindings (bs : List (Option H)) : Status :=
  if bs = [] then .noBindings
  else if ∃ b ∈ bs.reduceOption, w.hasEndpoint b = false then .invalidBinding
  else
    match bs.reduceOption.getLast? with
    | none => .noBindings
    | some b => w.getEpBinding b

/-- `rpc_ep_unregister`, where every `ept_delete` succeeds. -/
def epUnregister (bs : List (Option H)) (objs : Option (List U)) (bk : Book U T) : Book U T :=
  if checkBindings w bs = .ok then unregisterHands w nilUuid objs bs bk else bk

/-! ### Registering -/

/-- The loop over the objects.  It leaves the value of `curr_obj` and the status. -/
def registerObjects (ins : ℕ → Status) (tower : T) : ℕ → List U → Book U T → Book U T × ℕ × Status
  | o, [], bk => (bk, o, .ok)
  | o, u :: us, bk =>
    if ins o = .ok then registerObjects ins tower (o + 1) us (bk.insert (u, tower))
    else (bk, o, ins o)

/-- The loop over the towers of binding `h`.  It leaves `curr_tower`, `curr_obj` and
the status; without objects `curr_obj` is not touched. -/
def registerTowers (h : ℕ) (objs : Option (List U)) :
    ℕ → List R → Book U T → ℕ → Book U T × ℕ × ℕ × Status
  | t, [], bk, o => (bk, t, o, .ok)
  | t, r :: rs, bk, o =>
    if (w.towerFromRef r).2 ≠ .ok then (bk, t, o, (w.towerFromRef r).2)
    else
      match uuids objs with
      | [] =>
        if w.eptInsert h t 0 = .ok then
          registerTowers h objs (t + 1) rs (bk.insert (nilUuid, (w.towerFromRef r).1)) o
        else (bk, t, o, w.eptInsert h t 0)
      | u :: us =>
        let res := registerObjects (w.eptInsert h t) (w.towerFromRef r).1 0 (u :: us) bk
        if res.2.2 = .ok then registerTowers h objs (t + 1) rs res.1 res.2.1
        else (res.1, t, res.2.1, res.2.2)

/-- The loop over the bindings.  It leaves the three counters and the status. -/
def registerHands (objs : Option (List U)) :
    ℕ → List (Option H) → Book U T → ℕ → ℕ → Book U T × ℕ × ℕ × ℕ × Status
  | h, [], bk, t, o => (bk, h, t, o, .ok)
  | h, none :: bs, bk, t, o => registerHands objs (h + 1) bs bk t o
  | h, some b :: bs, bk, t, o =>
    if (w.towerRefVec b).2 ≠ .ok then (bk, h, t, o, (w.towerRefVec b).2)
    else
      let res := registerTowers w nilUuid h objs 0 (w.towerRefVec b).1 bk o
      if res.2.2.2 = .ok then registerHands objs (h + 1) bs res.1 res.2.1 res.2.2.1
      else (res.1, h, res.2.1, res.2.2.1, res.2.2.2)

/-- The second part of the roll-back: the objects `0 .. curr_obj - 1` of the binding at
which the registration stopped.  `none` if a vector is NULL or an index is not below
its count. -/
def unregisterPartial (bs : List (Option H)) (objs : Option (List U)) (h o : ℕ)
    (bk : Book U T) : Option (Book U T) :=
  match objs, bs[h]? with
  | some us, some b =>
    if o ≤ us.length then some (epUnregister w nilUuid [b] (some (us.take o)) bk) else none
  | _, _ => none

/-- The roll-back. -/
def rollback (bs : List (Option H)) (objs : Option (List U)) (h t o : ℕ) (bk : Book U T) :
    Option (Book U T) :=
  if 0 < h ∨ 0 < t ∨ 0 < o then
    let bk := if 0 < h then epUnregister w nilUuid (bs.take h) objs bk else bk
    let o := if 0 < t then o + 1 else o
    if 0 < o then unregisterPartial w nilUuid bs objs h o bk else some bk
  else some bk

/-- `ep_register`; `none` if it reads outside a vector. -/
def epRegister (bs : List (Option H)) (objs : Option (List U)) (bk : Book U T) :
    Option (Book U T × Status) :=
  if checkBindings w bs ≠ .ok then some (bk, checkBindings w bs)
  else
    let (bk, h, t, o, st) := registerHands w nilUuid objs 0 bs bk 0 0
    if st ≠ .ok ∧ st ≠ .commFailure then
      (rollback w nilUuid bs objs h t o bk).map fun bk => (bk, st)
    else some (bk, st)

end Routines

section Stops

variable {H R T U : Type} (w : World H R T) (nilUuid : U) (objs : Option (List U))

/-! ### Where a registration stops -/

/-- The objects that are registered for each tower. -/
def objectsOf : List U := if uuids objs = [] then [nilUuid] else uuids objs

/-- The towers of a binding, if all of them convert. -/
def bindingTowers (b : H) : List T := (w.towerRefVec b).1.map fun r => (w.towerFromRef r).1

/-- The towers of a list of bindings, some of them NULL. -/
def towersOf (bs : List (Option H)) : List T := bs.reduceOption.flatMap (bindingTowers w)

/-- All objects with each of the towers. -/
def pairs (tws : List T) : List (U × T) :=
  tws.flatMap fun tw => (objectsOf nilUuid objs).map fun u => (u, tw)

/-- Tower `t` of binding `h` converts and is inserted for every object. -/
def TowerOk (h t : ℕ) (r : R) : Prop :=
  (w.towerFromRef r).2 = .ok ∧ ∀ o < (objectsOf nilUuid objs).length, w.eptInsert h t o = .ok

/-- Binding `h` is registered completely. -/
def HandOk (h : ℕ) (b : H) : Prop :=
  (w.towerRefVec b).2 = .ok ∧
    ∀ t r, (w.towerRefVec b).1[t]? = some r → TowerOk w nilUuid objs h t r

/-- A place in the three loops: the conversion of a binding, the conversion of one of
its towers, or an insertion. -/
inductive Place
  | vec (h : ℕ)
  | tower (h t : ℕ)
  | insert (h t o : ℕ)

/-- Everything before binding `h` is registered, and the binding is `b`. -/
def Reaches (bs : List (Option H)) (h : ℕ) (b : H) : Prop :=
  bs[h]? = some (some b) ∧ ∀ i < h, ∀ b', bs[i]? = some (some b') → HandOk w nilUuid objs i b'

/-- The first step that fails is the one at the place, with the status. -/
def FailsAt (bs : List (Option H)) (st : Status) : Place → Prop
  | .vec h => ∃ b, Reaches w nilUuid objs bs h b ∧ (w.towerRefVec b).2 = st
  | .tower h t => ∃ b r, Reaches w nilUuid objs bs h b ∧ (w.towerRefVec b).2 = .ok ∧
      (w.towerRefVec b).1[t]? = some r ∧
      (∀ i < t, ∀ r', (w.towerRefVec b).1[i]? = some r' → TowerOk w nilUuid objs h i r') ∧
      (w.towerFromRef r).2 = st
  | .insert h t o => ∃ b r, Reaches w nilUuid objs bs h b ∧ (w.towerRefVec b).2 = .ok ∧
      (w.towerRefVec b).1[t]? = some r ∧
      (∀ i < t, ∀ r', (w.towerRefVec b).1[i]? = some r' → TowerOk w nilUuid objs h i r') ∧
      (w.towerFromRef r).2 = .ok ∧ o < (objectsOf nilUuid objs).length ∧
      (∀ i < o, w.eptInsert h t i = .ok) ∧ w.eptInsert h t o = st

/-! ### What the loops leave behind -/

/-- `curr_tower` after bindings that were registered: the number of towers of the last
of them that is not NULL. -/
def staleTower (t : ℕ) : List (Option H) → ℕ
  | [] => t
  | none :: bs => staleTower t bs
  | some b :: bs => staleTower (w.towerRefVec b).1.length bs

/-- `curr_obj` after some towers were registered. -/
def staleObj (o : ℕ) (tws : List T) : ℕ :=
  if tws = [] ∨ uuids objs = [] then o else (uuids objs).length

variable {w nilUuid objs} {bk : Book U T}

def Book.insertAll (bk : Book U T) (ps : List (U × T)) : Book U T :=
  { bk with map := bk.map ++ ps, inserted := bk.inserted ++ ps }

@[simp] theorem Book.insertAll_nil (bk : Book U T) : bk.insertAll [] = bk := by
  simp [Book.insertAll]

@[simp] theorem Book.insertAll_insertAll (bk : Book U T) (ps qs : List (U × T)) :
    (bk.insertAll ps).insertAll qs = bk.insertAll (ps ++ qs) := by
  simp [Book.insertAll]

theorem Book.insert_eq (bk : Book U T) (p : U × T) : bk.insert p = bk.insertAll [p] := rfl

theorem pairs_append (tws tws' : List T) :
    pairs nilUuid objs (tws ++ tws') = pairs nilUuid objs tws ++ pairs nilUuid objs tws' := by
  simp [pairs]

theorem pairs_singleton (tw : T) :
    pairs nilUuid objs [tw] = (objectsOf nilUuid objs).map fun u => (u, tw) := by
  simp [pairs]

theorem towersOf_append (bs bs' : List (Option H)) :
    towersOf w (bs ++ bs') = towersOf w bs ++ towersOf w bs' := by
  simp [towersOf, List.reduceOption_append]

theorem staleObj_staleObj (o : ℕ) (tws tws' : List T) :
    staleObj objs (staleObj objs o tws) tws' = staleObj objs o (tws ++ tws') := by
  unfold staleObj
  by_cases h0 : uuids objs = []
  · simp [h0]
  · rcases tws with _ | ⟨a, tws⟩ <;> rcases tws' with _ | ⟨a', tws'⟩ <;> simp [h0]

/-- Objects that are inserted without an error. -/
theorem registerObjects_append {ins : ℕ → Status} {tw : T} (rest : List U) :
    ∀ {us : List U} {o : ℕ} {bk : Book U T}, (∀ k < us.length, ins (o + k) = .ok) →
    registerObjects ins tw o (us ++ rest) bk
      = registerObjects ins tw (o + us.length) rest (bk.insertAll (us.map fun u => (u, tw))) := by
  intro us
  induction us with
  | nil => intro o bk _; simp
  | cons u us ih =>
    intro o bk hok
    have hfirst : ins o = .ok := hok 0 (by simp)
    have hrest : ∀ k < us.length, ins (o + 1 + k) = .ok := fun k hk => by
      have := hok (k + 1) (by simpa using hk)
      rwa [show o + (k + 1) = o + 1 + k by omega] at this
    rw [List.cons_append, registerObjects, if_pos hfirst, ih hrest, Book.insert_eq,
      Book.insertAll_insertAll, List.length_cons, show o + 1 + us.length = o + (us.length + 1) by
        omega]
    rfl

/-- A tower that is inserted for every object. -/
theorem registerTowers_cons {h t o : ℕ} {r : R} {rs : List R} (hok : TowerOk w nilUuid objs h t r) :
    registerTowers w nilUuid h objs t (r :: rs) bk o
      = registerTowers w nilUuid h objs (t + 1) rs
        (bk.insertAll (pairs nilUuid objs [(w.towerFromRef r).1]))
        (staleObj objs o [(w.towerFromRef r).1]) := by
  obtain ⟨hconv, hins⟩ := hok
  rw [registerTowers, if_neg (by simp [hconv]), pairs_singleton]
  unfold objectsOf at hins ⊢
  rcases hu : uuids objs with _ | ⟨u, us⟩
  · have hone : w.eptInsert h t 0 = .ok := hins 0 (by simp [hu])
    simp [hone, staleObj, hu, Book.insert_eq]
  · have hall : ∀ k < (u :: us).length, w.eptInsert h t (0 + k) = .ok := by
      rw [hu, if_neg (List.cons_ne_nil _ _)] at hins
      simpa using hins
    have hobjs : registerObjects (w.eptInsert h t) (w.towerFromRef r).1 0 ((u :: us) ++ []) bk = _ :=
      registerObjects_append [] hall
    rw [List.append_nil, registerObjects] at hobjs
    simp [hobjs, staleObj, hu]

theorem registerTowers_append {h : ℕ} (rest : List R) :
    ∀ {rs : List R} {t o : ℕ} {bk : Book U T},
    (∀ k r, rs[k]? = some r → TowerOk w nilUuid objs h (t + k) r) →
    registerTowers w nilUuid h objs t (rs ++ rest) bk o
      = registerTowers w nilUuid h objs (t + rs.length) rest
        (bk.insertAll (pairs nilUuid objs (rs.map fun r => (w.towerFromRef r).1)))
        (staleObj objs o (rs.map fun r => (w.towerFromRef r).1)) := by
  intro rs
  induction rs with
  | nil => intro t o bk _; simp [staleObj, pairs]
  | cons r rs ih =>
    intro t o bk hok
    have hrest : ∀ k r', rs[k]? = some r' → TowerOk w nilUuid objs h (t + 1 + k) r' :=
      fun k r' hk => by
        have := hok (k + 1) r' (by simpa using hk)
        rwa [show t + (k + 1) = t + 1 + k by omega] at this
    have hfirst : TowerOk w nilUuid objs h t r := hok 0 r rfl
    rw [List.cons_append, registerTowers_cons hfirst, ih hrest, Book.insertAll_insertAll,
      ← pairs_append, staleObj_staleObj, List.length_cons,
      show t + 1 + rs.length = t + (rs.length + 1) by omega]
    rfl

theorem staleTower_append (t : ℕ) : ∀ bs bs' : List (Option H),
    staleTower w t (bs ++ bs') = staleTower w (staleTower w t bs) bs'
  | [], _ => rfl
  | none :: bs, bs' => staleTower_append t bs bs'
  | some b :: bs, bs' => staleTower_append (w.towerRefVec b).1.length bs bs'

/-- **The bindings before the one at which the registration stops.**  Everything of
them is inserted, and the inner counters keep the values of the last of them. -/
theorem registerHands_append (rest : List (Option H)) :
    ∀ {bs : List (Option H)} {h t o : ℕ} {bk : Book U T},
    (∀ k b, bs[k]? = some (some b) → HandOk w nilUuid objs (h + k) b) →
    registerHands w nilUuid objs h (bs ++ rest) bk t o
      = registerHands w nilUuid objs (h + bs.length) rest
        (bk.insertAll (pairs nilUuid objs (towersOf w bs))) (staleTower w t bs)
        (staleObj objs o (towersOf w bs)) := by
  intro bs
  induction bs with
  | nil => intro h t o bk _; simp [staleObj, pairs, towersOf, staleTower]
  | cons b bs ih =>
    intro h t o bk hok
    have hrest : ∀ k b', bs[k]? = some (some b') → HandOk w nilUuid objs (h + 1 + k) b' :=
      fun k b' hk => by
        have := hok (k + 1) b' (by simpa using hk)
        rwa [show h + (k + 1) = h + 1 + k by omega] at this
    have hlen : h + 1 + bs.length = h + (b :: bs).length := by
      rw [List.length_cons]
      omega
    rcases b with _ | b
    · rw [List.cons_append, registerHands, ih hrest, hlen]
      rfl
    · obtain ⟨hvec, htowers⟩ := hok 0 b rfl
      have hall : registerTowers w nilUuid h objs 0 ((w.towerRefVec b).1 ++ []) bk o = _ :=
        registerTowers_append [] fun k r hk => by simpa using htowers k r hk
      rw [List.append_nil, registerTowers, Nat.zero_add] at hall
      have htws : towersOf w (some b :: bs) = bindingTowers w b ++ towersOf w bs := by
        simp [towersOf]
      rw [List.cons_append, registerHands, if_neg (by simp [hvec]), hall]
      dsimp only
      rw [if_pos rfl, ih hrest, hlen, Book.insertAll_insertAll, staleObj_staleObj, htws,
        pairs_append]
      rfl

theorem Reaches.split {bs : List (Option H)} {h : ℕ} {b : H} (hb : Reaches w nilUuid objs bs h b) :
    bs = bs.take h ++ some b :: bs.drop (h + 1) ∧ (bs.take h).length = h ∧
      ∀ k b', (bs.take h)[k]? = some (some b') → HandOk w nilUuid objs (0 + k) b' := by
  obtain ⟨hget, hok⟩ := hb
  obtain ⟨hlt, hb⟩ := List.getElem?_eq_some_iff.mp hget
  refine ⟨?_, by rw [List.length_take]; omega, fun k b' hk => ?_⟩
  · rw [← hb, List.cons_getElem_drop_succ, List.take_append_drop]
  · rw [List.getElem?_take] at hk
    split_ifs at hk with hkh
    rw [Nat.zero_add]
    exact hok k hkh b' hk

/-- The pairs that are on the map when the registration stops. -/
def insertedAt (w : World H R T) (nilUuid : U) (objs : Option (List U)) (bs : List (Option H))
    (b : H) : Place → List (U × T)
  | .vec h => pairs nilUuid objs (towersOf w (bs.take h))
  | .tower h t => pairs nilUuid objs (towersOf w (bs.take h) ++ (bindingTowers w b).take t)
  | .insert h t o => pairs nilUuid objs (towersOf w (bs.take h) ++ (bindingTowers w b).take t) ++
      (((bindingTowers w b).drop t).take 1).flatMap fun tw =>
        ((objectsOf nilUuid objs).take o).map fun u => (u, tw)

/-- The counters when the registration stops. -/
def countersAt (w : World H R T) (objs : Option (List U)) (bs : List (Option H)) (b : H) :
    Place → ℕ × ℕ × ℕ
  | .vec h => (h, staleTower w 0 (bs.take h), staleObj objs 0 (towersOf w (bs.take h)))
  | .tower h t =>
    (h, t, staleObj objs 0 (towersOf w (bs.take h) ++ (bindingTowers w b).take t))
  | .insert h t o => (h, t, if uuids objs = [] then 0 else o)

/-- The binding at which the registration stops. -/
def Place.hand : Place → ℕ
  | .vec h => h
  | .tower h _ => h
  | .insert h _ _ => h

theorem FailsAt.reaches {bs : List (Option H)} {st : Status} {place : Place}
    (hfail : FailsAt w nilUuid objs bs st place) : ∃ b, Reaches w nilUuid objs bs place.hand b := by
  cases place with
  | vec h => obtain ⟨b, hb, -⟩ := hfail; exact ⟨b, hb⟩
  | tower h t => obtain ⟨b, r, hb, -⟩ := hfail; exact ⟨b, hb⟩
  | insert h t o => obtain ⟨b, r, hb, -⟩ := hfail; exact ⟨b, hb⟩

/-- The tower at which the registration stops, among the towers of its binding. -/
theorem bindingTowers_split {t : ℕ} {b : H} {r : R} (hr : (w.towerRefVec b).1[t]? = some r) :
    bindingTowers w b = (bindingTowers w b).take t ++
        (w.towerFromRef r).1 :: (bindingTowers w b).drop (t + 1) ∧
      ((bindingTowers w b).take t).length = t := by
  obtain ⟨hlt, hr'⟩ := List.getElem?_eq_some_iff.mp hr
  have hlt' : t < (bindingTowers w b).length := by
    rw [bindingTowers, List.length_map]
    exact hlt
  have hget : (bindingTowers w b)[t] = (w.towerFromRef r).1 := by
    simp [bindingTowers, hr']
  refine ⟨?_, by rw [List.length_take]; omega⟩
  rw [← hget, List.cons_getElem_drop_succ, List.take_append_drop]

/-- The towers of a binding up to the one at which the registration stops. -/
theorem registerTowers_initial {h t o : ℕ} {b : H} {r : R} (hr : (w.towerRefVec b).1[t]? = some r)
    (hok : ∀ i < t, ∀ r', (w.towerRefVec b).1[i]? = some r' → TowerOk w nilUuid objs h i r') :
    registerTowers w nilUuid h objs 0 (w.towerRefVec b).1 bk o
      = registerTowers w nilUuid h objs t (r :: (w.towerRefVec b).1.drop (t + 1))
        (bk.insertAll (pairs nilUuid objs ((bindingTowers w b).take t)))
        (staleObj objs o ((bindingTowers w b).take t)) := by
  obtain ⟨hlt, hr'⟩ := List.getElem?_eq_some_iff.mp hr
  have hsplit : (w.towerRefVec b).1
      = (w.towerRefVec b).1.take t ++ r :: (w.towerRefVec b).1.drop (t + 1) := by
    rw [← hr', List.cons_getElem_drop_succ, List.take_append_drop]
  have hlen : ((w.towerRefVec b).1.take t).length = t := by
    rw [List.length_take]
    omega
  have happ : registerTowers w nilUuid h objs 0 ((w.towerRefVec b).1.take t
      ++ r :: (w.towerRefVec b).1.drop (t + 1)) bk o = _ :=
    registerTowers_append (r :: (w.towerRefVec b).1.drop (t + 1)) fun k r' hk => by
      rw [List.getElem?_take] at hk
      split_ifs at hk with hkt
      rw [Nat.zero_add]
      exact hok k hkt r' hk
  rw [← hsplit, hlen, Nat.zero_add, List.map_take, ← bindingTowers] at happ
  exact happ

/-- The object at which the registration stops. -/
theorem registerObjects_stop {ins : ℕ → Status} {tw : T} {us : List U} {o : ℕ} {st : Status}
    (hlt : o < us.length) (hbefore : ∀ i < o, ins i = .ok) (hins : ins o = st) (hst : st ≠ .ok) :
    registerObjects ins tw 0 us bk
      = (bk.insertAll ((us.take o).map fun u => (u, tw)), o, st) := by
  have hsplit : us = us.take o ++ us[o] :: us.drop (o + 1) := by
    rw [List.cons_getElem_drop_succ, List.take_append_drop]
  have hlen : (us.take o).length = o := by
    rw [List.length_take]
    omega
  have happ : registerObjects ins tw 0 (us.take o ++ us[o] :: us.drop (o + 1)) bk = _ :=
    registerObjects_append (us[o] :: us.drop (o + 1)) fun k hk => by
      rw [Nat.zero_add]
      exact hbefore k (by omega)
  rw [← hsplit, hlen, Nat.zero_add, registerObjects, hins, if_neg hst] at happ
  exact happ

/-- **Where the loops stop.**  What was inserted and what the counters say. -/
theorem registerHands_stop (bk : Book U T) {bs : List (Option H)} {st : Status} {place : Place}
    (hfail : FailsAt w nilUuid objs bs st place) (hst : st ≠ .ok) {b : H}
    (hb : Reaches w nilUuid objs bs place.hand b) :
    registerHands w nilUuid objs 0 bs bk 0 0
      = (bk.insertAll (insertedAt w nilUuid objs bs b place), (countersAt w objs bs b place).1,
        (countersAt w objs bs b place).2.1, (countersAt w objs bs b place).2.2, st) := by
  obtain ⟨hsplit, hlen, hprefix'⟩ := hb.split
  have happ : registerHands w nilUuid objs 0 (bs.take place.hand
      ++ some b :: bs.drop (place.hand + 1)) bk 0 0 = _ :=
    registerHands_append (some b :: bs.drop (place.hand + 1)) hprefix'
  rw [← hsplit, hlen, Nat.zero_add, registerHands] at happ
  rw [happ]
  have hsame : ∀ b', Reaches w nilUuid objs bs place.hand b' → b' = b := by
    intro b' hb'
    have := hb'.1.symm.trans hb.1
    simpa using this
  cases place with
  | vec h =>
    obtain ⟨b', hb', hvec⟩ := hfail
    obtain rfl := hsame b' hb'
    rw [if_pos (by rw [hvec]; exact hst), hvec]
    rfl
  | tower h t =>
    obtain ⟨b', r, hb', hvec, hr, hok, hconv⟩ := hfail
    obtain rfl := hsame b' hb'
    have hstop : ∀ (bk : Book U T) (o : ℕ), registerTowers w nilUuid h objs 0
        (w.towerRefVec b').1 bk o = (bk.insertAll (pairs nilUuid objs ((bindingTowers w b').take t)),
          t, staleObj objs o ((bindingTowers w b').take t), st) := by
      intro bk o
      rw [registerTowers_initial hr hok, registerTowers, if_pos (by rw [hconv]; exact hst), hconv]
    rw [if_neg (by simp [hvec])]
    dsimp only [Place.hand]
    rw [hstop]
    dsimp only
    rw [if_neg hst, Book.insertAll_insertAll, ← pairs_append, staleObj_staleObj]
    rfl
  | insert h t o =>
    obtain ⟨b', r, hb', hvec, hr, hok, hconv, hlt, hbefore, hins⟩ := hfail
    obtain rfl := hsame b' hb'
    have hdrop : ((bindingTowers w b').drop t).take 1 = [(w.towerFromRef r).1] := by
      obtain ⟨htws, htlen⟩ := bindingTowers_split hr
      rw [htws, List.drop_left' htlen]
      rfl
    -- what the loop over the towers returns
    have hstop : ∀ (bk : Book U T) (o' : ℕ), (uuids objs = [] → o' = 0) →
        registerTowers w nilUuid h objs 0 (w.towerRefVec b').1 bk o'
          = ((bk.insertAll (pairs nilUuid objs ((bindingTowers w b').take t))).insertAll
            (((objectsOf nilUuid objs).take o).map fun u => (u, (w.towerFromRef r).1)),
          t, (if uuids objs = [] then 0 else o), st) := by
      intro bk o' ho'
      rw [registerTowers_initial hr hok, registerTowers, if_neg (by simp [hconv])]
      rcases hu : uuids objs with _ | ⟨u, us⟩
      · -- the nil uuid alone
        obtain rfl : o = 0 := by
          simp only [objectsOf, hu, if_true, List.length_singleton] at hlt
          omega
        simp only [hins, if_neg hst]
        simp [staleObj, hu, ho' hu]
      · have hobjs : objectsOf nilUuid objs = u :: us := by simp [objectsOf, hu]
        rw [hobjs] at hlt ⊢
        simp only [registerObjects_stop hlt hbefore hins hst, if_neg hst]
        simp
    rw [if_neg (by simp [hvec])]
    dsimp only [Place.hand]
    rw [hstop _ _ fun hu => by simp [staleObj, hu]]
    dsimp only
    rw [if_neg hst, Book.insertAll_insertAll, Book.insertAll_insertAll]
    simp [insertedAt, countersAt, hdrop, pairs_append]

/-- Every binding has an endpoint and reaches the mapper. -/
def AllReachable (w : World H R T) (bs : List (Option H)) : Prop :=
  ∀ b ∈ bs.reduceOption, w.hasEndpoint b = true ∧ w.getEpBinding b = .ok

theorem checkBindings_ok {bs : List (Option H)} (hall : AllReachable w bs)
    (hne : bs.reduceOption ≠ []) : checkBindings w bs = .ok := by
  have hbs : bs ≠ [] := fun hc => hne (by rw [hc]; rfl)
  have hno : ¬ ∃ b ∈ bs.reduceOption, w.hasEndpoint b = false := by
    rintro ⟨b, hb, hf⟩
    rw [(hall b hb).1] at hf
    simp at hf
  rw [checkBindings, if_neg hbs, if_neg hno, List.getLast?_eq_some_getLast hne]
  exact (hall _ (List.getLast_mem hne)).2

theorem reachable_take {bs : List (Option H)} (hall : AllReachable w bs) (h : ℕ) :
    AllReachable w (bs.take h) := by
  intro b hb
  apply hall b
  rw [List.reduceOption_mem_iff] at hb ⊢
  exact List.mem_of_mem_take hb

/-! ### What the roll-back deletes -/

/-- The towers of a binding that convert. -/
def convTowers (w : World H R T) (b : H) : List T :=
  if (w.towerRefVec b).2 = .ok then
    ((w.towerRefVec b).1.filter fun r => (w.towerFromRef r).2 = .ok).map fun r =>
      (w.towerFromRef r).1
  else []

theorem mem_of_mem_convTowers {b : H} {tw : T} (h : tw ∈ convTowers w b) :
    tw ∈ bindingTowers w b := by
  unfold convTowers at h
  split_ifs at h
  · obtain ⟨r, hr, rfl⟩ := List.mem_map.mp h
    exact List.mem_map.mpr ⟨r, List.mem_of_mem_filter hr, rfl⟩
  · simp at h

theorem mem_pairs_iff {us : List U} {tws : List T} {p : U × T} :
    p ∈ tws.flatMap (fun tw => us.map fun u => (u, tw)) ↔ p.2 ∈ tws ∧ p.1 ∈ us := by
  obtain ⟨u, tw⟩ := p
  simp

theorem convTowers_of_handOk {h : ℕ} {b : H} (hok : HandOk w nilUuid objs h b) :
    convTowers w b = bindingTowers w b := by
  obtain ⟨hvec, htowers⟩ := hok
  have hall : (w.towerRefVec b).1.filter (fun r => (w.towerFromRef r).2 = .ok)
      = (w.towerRefVec b).1 := by
    rw [List.filter_eq_self]
    intro r hr
    obtain ⟨t, ht⟩ := List.mem_iff_getElem?.mp hr
    simpa using (htowers t r ht).1
  rw [convTowers, if_pos hvec, hall, bindingTowers]

/-- With a tower counted for an earlier binding, there was a tower. -/
theorem towersOf_ne_nil_of_staleTower : ∀ {bs : List (Option H)} {t : ℕ},
    staleTower w t bs ≠ 0 → t ≠ 0 ∨ towersOf w bs ≠ [] := by
  intro bs
  induction bs with
  | nil => exact fun h => .inl h
  | cons b bs ih =>
    intro t h
    rcases b with _ | b
    · exact ih (t := t) h
    · have hcons : towersOf w (some b :: bs) = bindingTowers w b ++ towersOf w bs := by
        simp [towersOf]
      rw [hcons]
      rcases ih (t := (w.towerRefVec b).1.length) h with hlen | htws
      · refine .inr fun hc => hlen ?_
        have := congrArg List.length (List.append_eq_nil_iff.mp hc).1
        simpa [bindingTowers] using this
      · exact .inr fun hc => htws (List.append_eq_nil_iff.mp hc).2

theorem staleObj_of_ne_nil {tws : List T} (hne : tws ≠ []) :
    staleObj objs 0 tws = (uuids objs).length := by
  rw [staleObj]
  by_cases h0 : uuids objs = []
  · simp [h0]
  · rw [if_neg (by simp [hne, h0])]

theorem staleObj_le (tws : List T) : staleObj objs 0 tws ≤ (uuids objs).length := by
  rw [staleObj]
  split_ifs <;> omega

/-- What the first part of the roll-back deletes. -/
def firstDeleted (w : World H R T) (nilUuid : U) (objs : Option (List U)) (bs : List (Option H))
    (h : ℕ) : List (U × T) :=
  pairs nilUuid objs ((bs.take h).reduceOption.flatMap (convTowers w))

/-- All towers of the bindings before the failing one are taken back. -/
theorem firstDeleted_eq {bs : List (Option H)} {h : ℕ} {b : H}
    (hb : Reaches w nilUuid objs bs h b) :
    firstDeleted w nilUuid objs bs h = pairs nilUuid objs (towersOf w (bs.take h)) := by
  rw [firstDeleted, towersOf]
  congr 1
  refine List.flatMap_congr fun b' hb' => ?_
  rw [List.reduceOption_mem_iff] at hb'
  obtain ⟨i, hi⟩ := List.mem_iff_getElem?.mp hb'
  rw [List.getElem?_take] at hi
  split_ifs at hi with hih
  exact convTowers_of_handOk (hb.2 i hih b' hi)

theorem mem_convTowers {b : H} {r : R} (hvec : (w.towerRefVec b).2 = .ok)
    (hr : r ∈ (w.towerRefVec b).1) (hconv : (w.towerFromRef r).2 = .ok) :
    (w.towerFromRef r).1 ∈ convTowers w b := by
  rw [convTowers, if_pos hvec]
  exact List.mem_map.mpr ⟨r, List.mem_filter.mpr ⟨hr, by simpa using hconv⟩, rfl⟩

variable [DecidableEq T] [DecidableEq U]

def Book.deleteAll (bk : Book U T) (ps : List (U × T)) : Book U T :=
  { bk with map := bk.map.filter (· ∉ ps), deleted := bk.deleted ++ ps }

@[simp] theorem Book.deleteAll_nil (bk : Book U T) : bk.deleteAll [] = bk := by
  simp [Book.deleteAll]

@[simp] theorem Book.deleteAll_deleteAll (bk : Book U T) (ps qs : List (U × T)) :
    (bk.deleteAll ps).deleteAll qs = bk.deleteAll (ps ++ qs) := by
  simp [Book.deleteAll, List.filter_filter, Bool.and_comm]

theorem Book.delete_eq (bk : Book U T) (p : U × T) : bk.delete p = bk.deleteAll [p] := by
  simp [Book.delete, Book.deleteAll]

theorem foldl_delete (tw : T) (us : List U) (bk : Book U T) :
    us.foldl (fun bk u => bk.delete (u, tw)) bk = bk.deleteAll (us.map fun u => (u, tw)) := by
  induction us generalizing bk with
  | nil => simp
  | cons u us ih =>
    rw [List.foldl_cons, ih, Book.delete_eq, Book.deleteAll_deleteAll]
    rfl

theorem unregisterTower_eq (tw : T) (bk : Book U T) :
    unregisterTower nilUuid objs tw bk = bk.deleteAll (pairs nilUuid objs [tw]) := by
  rw [unregisterTower, pairs_singleton, objectsOf]
  rcases hu : uuids objs with _ | ⟨u, us⟩
  · simp [Book.delete_eq]
  · change (u :: us).foldl (fun bk u => bk.delete (u, tw)) bk = _
    rw [foldl_delete, if_neg (List.cons_ne_nil _ _)]

theorem unregisterTowers_eq : ∀ (rs : List R) (bk : Book U T),
    unregisterTowers w nilUuid objs rs bk = bk.deleteAll (pairs nilUuid objs
      ((rs.filter fun r => (w.towerFromRef r).2 = .ok).map fun r => (w.towerFromRef r).1)) := by
  intro rs
  induction rs with
  | nil => intro bk; simp [unregisterTowers, pairs]
  | cons r rs ih =>
    intro bk
    by_cases hr : (w.towerFromRef r).2 = .ok
    · rw [unregisterTowers, if_pos hr, ih, unregisterTower_eq, Book.deleteAll_deleteAll,
        ← pairs_append]
      simp [hr]
    · rw [unregisterTowers, if_neg hr, ih]
      simp [hr]

theorem unregisterHands_eq : ∀ (bs : List (Option H)) (bk : Book U T),
    unregisterHands w nilUuid objs bs bk
      = bk.deleteAll (pairs nilUuid objs (bs.reduceOption.flatMap (convTowers w))) := by
  intro bs
  induction bs with
  | nil => intro bk; simp [unregisterHands, pairs]
  | cons b bs ih =>
    intro bk
    rcases b with _ | b
    · rw [unregisterHands, ih]
      rfl
    · by_cases hb : (w.towerRefVec b).2 = .ok
      · rw [unregisterHands, if_pos hb, ih, unregisterTowers_eq, Book.deleteAll_deleteAll,
          ← pairs_append]
        simp [convTowers, hb]
      · rw [unregisterHands, if_neg hb, ih]
        simp [convTowers, hb]

/-- Unregistering deletes the towers that convert, also where all bindings are NULL. -/
theorem epUnregister_eq {bs : List (Option H)} (hall : AllReachable w bs) (bk : Book U T) :
    epUnregister w nilUuid bs objs bk
      = bk.deleteAll (pairs nilUuid objs (bs.reduceOption.flatMap (convTowers w))) := by
  rw [epUnregister]
  by_cases hne : bs.reduceOption = []
  · split_ifs
    · rw [unregisterHands_eq]
    · simp [hne, pairs]
  · rw [if_pos (checkBindings_ok hall hne), unregisterHands_eq]

/-! ### Rolled back -/

/-- The registration returns without having read outside a vector; none of the pairs
it inserted is left on the map, and it deleted only pairs of given bindings and
objects. -/
def RolledBack (w : World H R T) (nilUuid : U) (objs : Option (List U)) (bs : List (Option H))
    (map : List (U × T)) : Prop :=
  ∃ bk st, epRegister w nilUuid bs objs { map := map } = some (bk, st) ∧
    (∀ p ∈ bk.inserted, p ∉ bk.map) ∧
    ∀ p ∈ bk.deleted, p.1 ∈ objectsOf nilUuid objs ∧
      ∃ b ∈ bs.reduceOption, p.2 ∈ bindingTowers w b

/-- The value of `curr_obj` with which the second part of the roll-back begins. -/
def objsToDelete (t o : ℕ) : ℕ := if 0 < t then o + 1 else o

/-- The roll-back, once the loops have stopped at binding `b`. -/
theorem rollback_eq {bs : List (Option H)} {h t o : ℕ} {b : H} (hall : AllReachable w bs)
    (hget : bs[h]? = some (some b)) (bk : Book U T) :
    rollback w nilUuid bs objs h t o bk =
      if objsToDelete t o = 0 then some (bk.deleteAll (firstDeleted w nilUuid objs bs h))
      else if objsToDelete t o ≤ (uuids objs).length then
        some (bk.deleteAll (firstDeleted w nilUuid objs bs h ++
          (convTowers w b).flatMap fun tw =>
            ((uuids objs).take (objsToDelete t o)).map fun u => (u, tw)))
      else none := by
  have hone : AllReachable w [some b] := by
    intro b' hb'
    obtain rfl : b' = b := by simpa using hb'
    apply hall b'
    rw [List.reduceOption_mem_iff]
    exact List.mem_of_getElem? hget
  have hfirst : (if 0 < h then epUnregister w nilUuid (bs.take h) objs bk else bk)
      = bk.deleteAll (firstDeleted w nilUuid objs bs h) := by
    rcases Nat.eq_zero_or_pos h with rfl | hpos
    · simp [firstDeleted, pairs]
    · rw [if_pos hpos, epUnregister_eq (reachable_take hall h)]
      rfl
  rw [rollback]
  by_cases hany : 0 < h ∨ 0 < t ∨ 0 < o
  · rw [if_pos hany, hfirst]
    change (if 0 < objsToDelete t o then unregisterPartial w nilUuid bs objs h (objsToDelete t o)
      (bk.deleteAll (firstDeleted w nilUuid objs bs h))
      else some (bk.deleteAll (firstDeleted w nilUuid objs bs h))) = _
    by_cases h0 : objsToDelete t o = 0
    · rw [if_pos h0, if_neg (by omega)]
    · rw [if_neg h0, if_pos (by omega)]
      rcases objs with _ | us
      · -- the object vector is a NULL pointer
        have hgt : ¬ objsToDelete t o ≤ (uuids (none : Option (List U))).length := by
          simpa [uuids] using h0
        rw [if_neg hgt, unregisterPartial]
        simp
      · have hlen : (uuids (some us)).length = us.length := rfl
        rw [hlen]
        by_cases hle : objsToDelete t o ≤ us.length
        · have hne : us.take (objsToDelete t o) ≠ [] := by
            intro hc
            have := congrArg List.length hc
            rw [List.length_take, List.length_nil] at this
            omega
          have hobjs : objectsOf nilUuid (some (us.take (objsToDelete t o)))
              = us.take (objsToDelete t o) := by
            rw [objectsOf]
            exact if_neg hne
          simp only [unregisterPartial, hget, if_pos hle]
          rw [epUnregister_eq hone, Book.deleteAll_deleteAll]
          simp [pairs, hobjs, uuids]
        · simp only [unregisterPartial, hget, if_neg hle]
  · -- nothing was inserted, and nothing is taken back
    obtain ⟨rfl, rfl, rfl⟩ : h = 0 ∧ t = 0 ∧ o = 0 := by omega
    rw [if_neg hany]
    simp [objsToDelete, firstDeleted, pairs]

/-- What is known when the loops have stopped: the property comes down to the two
parts of the roll-back deleting what was inserted. -/
theorem rolledBack_of_stop {bs : List (Option H)} {h t o : ℕ} {b : H} {st : Status}
    {ins map : List (U × T)} (hall : AllReachable w bs) (hget : bs[h]? = some (some b))
    (hst : st ≠ .ok) (hcomm : st ≠ .commFailure)
    (hstop : ∀ bk : Book U T, registerHands w nilUuid objs 0 bs bk 0 0
      = (bk.insertAll ins, h, t, o, st)) :
    RolledBack w nilUuid objs bs map ↔
      (objsToDelete t o = 0 ∧ ∀ p ∈ ins, p ∈ firstDeleted w nilUuid objs bs h) ∨
      (0 < objsToDelete t o ∧ objsToDelete t o ≤ (uuids objs).length ∧
        ∀ p ∈ ins, p ∈ firstDeleted w nilUuid objs bs h ∨
          (p.2 ∈ convTowers w b ∧ p.1 ∈ (uuids objs).take (objsToDelete t o))) := by
  have hne : bs.reduceOption ≠ [] := by
    have hmem : b ∈ bs.reduceOption := by
      rw [List.reduceOption_mem_iff]
      exact List.mem_of_getElem? hget
    exact List.ne_nil_of_mem hmem
  have hreg : epRegister w nilUuid bs objs { map := map }
      = (rollback w nilUuid bs objs h t o (Book.insertAll { map := map } ins)).map
        fun bk => (bk, st) := by
    rw [epRegister, if_neg (by simp [checkBindings_ok hall hne]), hstop]
    exact if_pos ⟨hst, hcomm⟩
  -- the deletions come after the insertions
  have hafter : ∀ del : List (U × T), (∀ p ∈ del, p.1 ∈ objectsOf nilUuid objs ∧
        ∃ b ∈ bs.reduceOption, p.2 ∈ bindingTowers w b) →
      ((∃ bk st', some ((Book.insertAll { map := map } ins).deleteAll del, st) = some (bk, st') ∧
        (∀ p ∈ bk.inserted, p ∉ bk.map) ∧ ∀ p ∈ bk.deleted, p.1 ∈ objectsOf nilUuid objs ∧
          ∃ b ∈ bs.reduceOption, p.2 ∈ bindingTowers w b) ↔ ∀ p ∈ ins, p ∈ del) := by
    intro del hcross
    constructor
    · rintro ⟨bk, st', heq, hgone, -⟩ p hp
      obtain ⟨rfl, rfl⟩ := Prod.mk.inj (Option.some_inj.mp heq)
      have hno := hgone p (by simp [Book.deleteAll, Book.insertAll, hp])
      have hboth : (p ∈ map → p ∈ del) ∧ p ∈ del := by
        simpa [Book.deleteAll, Book.insertAll, hp] using hno
      exact hboth.2
    · intro hsub
      refine ⟨_, _, rfl, fun p hp => ?_, fun p hp => hcross p ?_⟩
      · have hins : p ∈ ins := by simpa [Book.deleteAll, Book.insertAll] using hp
        simp [Book.deleteAll, hsub p hins]
      · simpa [Book.deleteAll, Book.insertAll] using hp
  have hfirst : ∀ p ∈ firstDeleted w nilUuid objs bs h, p.1 ∈ objectsOf nilUuid objs ∧
      ∃ b ∈ bs.reduceOption, p.2 ∈ bindingTowers w b := by
    intro p hp
    simp only [firstDeleted, pairs, List.mem_flatMap, List.mem_map] at hp
    obtain ⟨tw, ⟨b', hb', htw⟩, u, hu, rfl⟩ := hp
    refine ⟨hu, b', ?_, mem_of_mem_convTowers htw⟩
    rw [List.reduceOption_mem_iff] at hb' ⊢
    exact List.mem_of_mem_take hb'
  rw [RolledBack, hreg, rollback_eq hall hget]
  by_cases h0 : objsToDelete t o = 0
  · rw [if_pos h0, Option.map_some, hafter _ hfirst]
    simp [h0]
  · rw [if_neg h0]
    by_cases hle : objsToDelete t o ≤ (uuids objs).length
    · have hobjs : objectsOf nilUuid objs = uuids objs := by
        rw [objectsOf, if_neg]
        intro hc
        rw [hc, List.length_nil] at hle
        omega
      rw [if_pos hle, Option.map_some, hafter]
      · simp only [h0, hle, false_and, false_or, true_and, Nat.pos_of_ne_zero h0]
        refine forall_congr' fun p => imp_congr_right fun _ => ?_
        rw [List.mem_append, mem_pairs_iff]
      · intro p hp
        rcases List.mem_append.mp hp with hp | hp
        · exact hfirst p hp
        · rw [mem_pairs_iff] at hp
          refine ⟨?_, b, ?_, mem_of_mem_convTowers hp.1⟩
          · rw [hobjs]
            exact List.mem_of_mem_take hp.2
          · rw [List.reduceOption_mem_iff]
            exact List.mem_of_getElem? hget
    · rw [if_neg hle]
      simp [h0, hle]

/-- The counters cover what was inserted: the failing step is the first of its binding
(for the conversion of a binding: none of the last one before it was counted), or it is an
insertion and every object behind it, for the towers before it, is taken back for
another reason. -/
def Covered (w : World H R T) (objs : Option (List U)) (bs : List (Option H)) (b : H) :
    Place → Prop
  | .vec h => staleTower w 0 (bs.take h) = 0
  | .tower _ t => t = 0
  | .insert h t o => t = 0 ∨ (uuids objs ≠ [] ∧ ∀ tw ∈ (bindingTowers w b).take t,
      ∀ u ∈ uuids objs, tw ∈ towersOf w (bs.take h) ∨ u ∈ (uuids objs).take (o + 1))

omit [DecidableEq T] [DecidableEq U] in
/-- The counters of the last binding that was completed delete no more than was inserted. -/
theorem staleObj_deleted (objs : Option (List U)) (tws tws' : List T) (firsts : List (U × T))
    (ins : List (U × T)) (hins : ∀ p ∈ ins, p ∈ firsts) :
    (staleObj objs 0 tws = 0 ∧ ∀ p ∈ ins, p ∈ firsts) ∨
      (0 < staleObj objs 0 tws ∧ staleObj objs 0 tws ≤ (uuids objs).length ∧
        ∀ p ∈ ins, p ∈ firsts ∨
          (p.2 ∈ tws' ∧ p.1 ∈ (uuids objs).take (staleObj objs 0 tws))) := by
  rcases Nat.eq_zero_or_pos (staleObj objs 0 tws) with hz | hpos
  · exact .inl ⟨hz, hins⟩
  · exact .inr ⟨hpos, staleObj_le _, fun p hp => .inl (hins p hp)⟩

/-- The towers of a binding could not be had. -/
theorem rolledBack_vec_iff {h : ℕ} {w : World H R T} {nilUuid : U} {objs : Option (List U)}
    {bs : List (Option H)} {st : Status} {b : H} (map : List (U × T))
    (hall : AllReachable w bs) (hfail : FailsAt w nilUuid objs bs st (.vec h))
    (hb : Reaches w nilUuid objs bs h b) (hst : st ≠ .ok) (hcomm : st ≠ .commFailure) :
    RolledBack w nilUuid objs bs map ↔ Covered w objs bs b (.vec h) := by
  have hstop := fun bk : Book U T => registerHands_stop bk hfail hst hb
  rw [rolledBack_of_stop hall hb.1 hst hcomm hstop]
  simp only [countersAt, insertedAt, Covered, firstDeleted_eq hb]
  by_cases h0 : staleTower w 0 (bs.take h) = 0
  · -- the first part takes everything back
    have hto : objsToDelete 0 (staleObj objs 0 (towersOf w (bs.take h)))
        = staleObj objs 0 (towersOf w (bs.take h)) := rfl
    rw [h0, hto]
    refine iff_of_true ?_ rfl
    exact staleObj_deleted objs _ _ _ _ fun p hp => hp
  · -- the counters of the binding before are one object too far
    have hne := (towersOf_ne_nil_of_staleTower h0).resolve_left (fun hc => hc rfl)
    have hto : objsToDelete (staleTower w 0 (bs.take h))
        (staleObj objs 0 (towersOf w (bs.take h))) = (uuids objs).length + 1 := by
      rw [objsToDelete, if_pos (by omega), staleObj_of_ne_nil hne]
    rw [hto]
    refine iff_of_false ?_ h0
    rintro (⟨hc, -⟩ | ⟨-, hc, -⟩) <;> omega

/-- A tower did not convert. -/
theorem rolledBack_tower_iff {h t : ℕ} {w : World H R T} {nilUuid : U} {objs : Option (List U)}
    {bs : List (Option H)} {st : Status} {b : H} (map : List (U × T))
    (hall : AllReachable w bs) (hfail : FailsAt w nilUuid objs bs st (.tower h t))
    (hb : Reaches w nilUuid objs bs h b) (hst : st ≠ .ok) (hcomm : st ≠ .commFailure) :
    RolledBack w nilUuid objs bs map ↔ Covered w objs bs b (.tower h t) := by
  have hstop := fun bk : Book U T => registerHands_stop bk hfail hst hb
  obtain ⟨b', r, hb', hvec, hr, hok, -⟩ := hfail
  rw [rolledBack_of_stop hall hb.1 hst hcomm hstop]
  obtain rfl : b' = b := by simpa using hb'.1.symm.trans hb.1
  simp only [countersAt, insertedAt, Covered, firstDeleted_eq hb]
  rcases Nat.eq_zero_or_pos t with rfl | hpos
  · simp only [List.take_zero, List.append_nil, objsToDelete, lt_irrefl, if_false]
    refine iff_of_true ?_ trivial
    exact staleObj_deleted objs _ _ _ _ fun p hp => hp
  · have hne : towersOf w (bs.take h) ++ (bindingTowers w b').take t ≠ [] := by
      intro hc
      have hlen := (bindingTowers_split hr).2
      rw [(List.append_eq_nil_iff.mp hc).2, List.length_nil] at hlen
      omega
    rw [staleObj_of_ne_nil hne, objsToDelete, if_pos hpos]
    refine iff_of_false ?_ (by omega)
    rintro (⟨hc, -⟩ | ⟨-, hc, -⟩) <;> omega

/-- An insertion failed. -/
theorem rolledBack_insert_iff {h t o : ℕ} {w : World H R T} {nilUuid : U} {objs : Option (List U)}
    {bs : List (Option H)} {st : Status} {b : H} (map : List (U × T))
    (hall : AllReachable w bs) (hfail : FailsAt w nilUuid objs bs st (.insert h t o))
    (hb : Reaches w nilUuid objs bs h b) (hst : st ≠ .ok) (hcomm : st ≠ .commFailure) :
    RolledBack w nilUuid objs bs map ↔ Covered w objs bs b (.insert h t o) := by
  have hstop := fun bk : Book U T => registerHands_stop bk hfail hst hb
  have hpairs : ∀ {p : U × T} {tws : List T},
      p ∈ pairs nilUuid objs tws ↔ p.2 ∈ tws ∧ p.1 ∈ objectsOf nilUuid objs :=
    fun {p tws} => mem_pairs_iff
  have hobjs : uuids objs ≠ [] → objectsOf nilUuid objs = uuids objs := fun hne => if_neg hne
  obtain ⟨b', r, hb', hvec, hr, hok, hconv, hlt, -⟩ := hfail
  rw [rolledBack_of_stop hall hb.1 hst hcomm hstop]
  obtain rfl : b' = b := by simpa using hb'.1.symm.trans hb.1
  have hdrop : ((bindingTowers w b').drop t).take 1 = [(w.towerFromRef r).1] := by
    obtain ⟨htws, htlen⟩ := bindingTowers_split hr
    rw [htws, List.drop_left' htlen]
    rfl
  have htower : (w.towerFromRef r).1 ∈ convTowers w b' :=
    mem_convTowers hvec (List.mem_of_getElem? hr) hconv
  have htowers : ∀ tw ∈ (bindingTowers w b').take t, tw ∈ convTowers w b' := by
    intro tw htw
    obtain ⟨i, hi⟩ := List.mem_iff_getElem?.mp htw
    rw [List.getElem?_take, bindingTowers, List.getElem?_map] at hi
    split_ifs at hi with hit
    obtain ⟨r', hr', rfl⟩ := Option.map_eq_some_iff.mp hi
    exact mem_convTowers hvec (List.mem_of_getElem? hr') (hok i hit r' hr').1
  simp only [countersAt, insertedAt, Covered, firstDeleted_eq hb, hdrop]
  by_cases hnil : uuids objs = []
  · -- the nil uuid alone: with a tower before it, the object vector is read
    obtain rfl : o = 0 := by
      rw [objectsOf, if_pos hnil, List.length_singleton] at hlt
      omega
    rw [if_pos hnil]
    rcases Nat.eq_zero_or_pos t with rfl | hpos
    · refine iff_of_true (.inl ⟨rfl, fun p hp => ?_⟩) (.inl rfl)
      simpa using hp
    · refine iff_of_false ?_ ?_
      · rw [objsToDelete, if_pos hpos, hnil, List.length_nil]
        rintro (⟨hc, -⟩ | ⟨-, hc, -⟩) <;> omega
      · rintro (hc | ⟨hc, -⟩)
        · omega
        · exact hc hnil
  · rw [if_neg hnil, hobjs hnil]
    rw [hobjs hnil] at hlt hpairs
    rcases Nat.eq_zero_or_pos t with rfl | hpos
    · -- the first tower of the binding: its objects before the failing one
      simp only [List.take_zero, List.append_nil, objsToDelete, lt_irrefl, if_false]
      refine iff_of_true ?_ (.inl trivial)
      rcases Nat.eq_zero_or_pos o with rfl | ho
      · refine .inl ⟨rfl, fun p hp => ?_⟩
        simpa using hp
      · refine .inr ⟨ho, hlt.le, fun p hp => ?_⟩
        rcases List.mem_append.mp hp with hp | hp
        · exact .inl hp
        · rw [mem_pairs_iff, List.mem_singleton] at hp
          exact .inr ⟨hp.1 ▸ htower, hp.2⟩
    · -- a later tower: the objects behind the failing one stay for the towers before it
      simp only [objsToDelete, if_pos hpos]
      constructor
      · rintro (⟨hc, -⟩ | ⟨-, -, hsub⟩)
        · omega
        · refine .inr ⟨hnil, fun tw htw u hu => ?_⟩
          have hmem : (u, tw) ∈ pairs nilUuid objs
              (towersOf w (bs.take h) ++ (bindingTowers w b').take t) :=
            hpairs.mpr ⟨List.mem_append_right _ htw, hu⟩
          rcases hsub (u, tw) (List.mem_append_left _ hmem) with hfirst | hlast
          · exact .inl (hpairs.mp hfirst).1
          · exact .inr hlast.2
      · rintro (hc | ⟨-, hcover⟩)
        · omega
        · refine .inr ⟨by omega, hlt, fun p hp => ?_⟩
          rcases List.mem_append.mp hp with hp | hp
          · obtain ⟨htw, hu⟩ := hpairs.mp hp
            rcases List.mem_append.mp htw with htw | htw
            · exact .inl (hpairs.mpr ⟨htw, hu⟩)
            · rcases hcover p.2 htw p.1 hu with hfirst | hlast
              · exact .inl (hpairs.mpr ⟨hfirst, hu⟩)
              · exact .inr ⟨htowers p.2 htw, hlast⟩
          · rw [mem_pairs_iff, List.mem_singleton] at hp
            refine .inr ⟨hp.1 ▸ htower, ?_⟩
            exact (List.take_subset_take_left _ (by omega)) hp.2

/-- **Failed registrations are rolled back**, for whatever bindings, objects and towers
and at whatever step the registration fails, if and only if the counters cover what
was inserted. -/
theorem rolledBack_iff {w : World H R T} {nilUuid : U} {objs : Option (List U)}
    {bs : List (Option H)} {st : Status} {place : Place} {b : H} (map : List (U × T))
    (hall : AllReachable w bs) (hfail : FailsAt w nilUuid objs bs st place)
    (hb : Reaches w nilUuid objs bs place.hand b)
    (hst : st ≠ .ok) (hcomm : st ≠ .commFailure) (_hcancel : st ≠ .callCancelled) :
    RolledBack w nilUuid objs bs map ↔ Covered w objs bs b place := by
  cases place with
  | vec h => exact rolledBack_vec_iff map hall hfail hb hst hcomm
  | tower h t => exact rolledBack_tower_iff map hall hfail hb hst hcomm
  | insert h t o => exact rolledBack_insert_iff map hall hfail hb hst hcomm

end Stops

/-! ### Registrations that are not taken back -/

/-- Binding `b` has towers `2 b` and `2 b + 1`; the insertion of the second tower of
the first binding fails for object `o`. -/
def failingWorld (o : ℕ) : World ℕ ℕ ℕ where
  hasEndpoint _ := true
  getEpBinding _ := .ok
  towerRefVec b := ([2 * b, 2 * b + 1], .ok)
  towerFromRef r := (r, .ok)
  eptInsert h t o' := if h = 0 ∧ t = 1 ∧ o' = o then .cantPerformOp else .ok

theorem failingWorld_failsAt {objs : Option (List ℕ)} {o : ℕ}
    (ho : o < (objectsOf 0 objs).length) :
    FailsAt (failingWorld o) 0 objs [some 3] .cantPerformOp (.insert 0 1 o) := by
  refine ⟨3, 7, ⟨rfl, fun i hi => absurd hi (Nat.not_lt_zero i)⟩, rfl, rfl, ?_, rfl, ho, ?_, ?_⟩
  · intro i hi r hr
    refine ⟨rfl, fun o' _ => ?_⟩
    obtain rfl : i = 0 := by omega
    simp [failingWorld]
  · intro i hi
    have hne : i ≠ o := by omega
    simp [failingWorld, hne]
  · simp [failingWorld]

/-- The last of three objects: the counters cover the tower before. -/
theorem rolledBack_iff_last :
    RolledBack (failingWorld 2) 0 (some [10, 11, 12]) [some 3] [] := by
  have hall : AllReachable (failingWorld 2) [some 3] := fun b _ => ⟨rfl, rfl⟩
  have hcover : Covered (failingWorld 2) (some [10, 11, 12]) [some 3] 3 (.insert 0 1 2) :=
    .inr ⟨by simp [uuids], fun tw _ u hu => .inr (by simpa [uuids] using hu)⟩
  exact (rolledBack_iff [] hall (failingWorld_failsAt (by decide)) (b := 3)
    ⟨rfl, fun i hi => absurd hi (Nat.not_lt_zero i)⟩ (by decide) (by decide) (by decide)).mpr hcover

/-- The second tower of a binding cannot be inserted, and there are no objects: the
roll-back reads the object vector through a NULL pointer. -/
theorem not_rolledBack :
    ¬ ∀ (w : World ℕ ℕ ℕ) (objs : Option (List ℕ)) (bs : List (Option ℕ)) (st : Status)
      (place : Place), AllReachable w bs → FailsAt w 0 objs bs st place →
      st ≠ .ok → st ≠ .commFailure → st ≠ .callCancelled → RolledBack w 0 objs bs [] := by
  intro h
  have hall : AllReachable (failingWorld 0) [some 3] := fun b _ => ⟨rfl, rfl⟩
  obtain ⟨bk, st, hnull, -⟩ := h (failingWorld 0) none [some 3] _ _ hall
    (failingWorld_failsAt (by decide)) (by decide) (by decide) (by decide)
  have hcrash : epRegister (failingWorld 0) 0 [some 3] none ({ map := [] } : Book ℕ ℕ) = none := by
    decide
  rw [hcrash] at hnull
  simp at hnull

end Ep
