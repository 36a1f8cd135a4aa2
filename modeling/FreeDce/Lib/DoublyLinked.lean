/-
Doubly linked lists in memory.

`Linked next prev before l after` says that the elements of `l` point to each other in their order,
that the first one's predecessor is `before` and the last one's successor `after`.

* `linked_append` — a list is linked if its parts are, with each other as neighbours;
* `Linked.splice`, `Linked.erase`, `Linked.insert` — what is written where elements leave or come;
* `Linked.path`, `Linked.path_reverse` — what is met along the pointers, in either direction.
-/
import Mathlib

namespace Pointers

variable {ι : Type*} {next prev next' prev' : ι → Option ι} {before before' after after' : Option ι}
  {l l₁ l₂ : List ι} {x y : ι}

def Linked (next prev : ι → Option ι) : Option ι → List ι → Option ι → Prop
  | _, [], _ => True
  | before, x :: l, after =>
    (prev x = before ∧ next x = l.head?.or after) ∧ Linked next prev (some x) l after

theorem linked_nil : Linked next prev before [] after := trivial

theorem linked_cons : Linked next prev before (x :: l) after ↔
    (prev x = before ∧ next x = l.head?.or after) ∧ Linked next prev (some x) l after := Iff.rfl

theorem linked_append : Linked next prev before (l₁ ++ l₂) after ↔
    Linked next prev before l₁ (l₂.head?.or after) ∧
      Linked next prev (l₁.getLast?.or before) l₂ after := by
  induction l₁ generalizing before with
  | nil => simp [linked_nil]
  | cons x l ih =>
    have hhead : (l ++ l₂).head?.or after = l.head?.or (l₂.head?.or after) := by
      rw [List.head?_append, Option.or_assoc]
    have hlast : (x :: l).getLast?.or before = l.getLast?.or (some x) := by
      rw [List.getLast?_cons]
      cases l.getLast? <;> rfl
    rw [List.cons_append, linked_cons, linked_cons, ih, hhead, hlast, and_assoc, and_assoc, and_assoc]

/-- The successor of the last element changes. -/
theorem Linked.setNext (h : Linked next prev before l after) (hnodup : l.Nodup)
    (hprev : ∀ z ∈ l, prev' z = prev z)
    (hnext : ∀ z ∈ l, some z ≠ l.getLast? → next' z = next z)
    (hlast : ∀ z, l.getLast? = some z → next' z = after') : Linked next' prev' before l after' := by
  induction l generalizing before with
  | nil => trivial
  | cons x l ih =>
    obtain ⟨⟨hp, hn⟩, hl⟩ := h
    obtain ⟨hx, hnodup⟩ := List.nodup_cons.mp hnodup
    cases l with
    | nil =>
      refine ⟨⟨(hprev x List.mem_cons_self).trans hp, ?_⟩, trivial⟩
      exact hlast x rfl
    | cons y l =>
      have hgetLast : (x :: y :: l).getLast? = (y :: l).getLast? := List.getLast?_cons_cons
      have hne : some x ≠ (x :: y :: l).getLast? := by
        rw [hgetLast]
        intro heq
        exact hx (List.mem_of_getLast? heq.symm)
      refine ⟨⟨(hprev x List.mem_cons_self).trans hp, ?_⟩, ih hl hnodup ?_ ?_ ?_⟩
      · exact (hnext x List.mem_cons_self hne).trans hn
      · exact fun z hz => hprev z (List.mem_cons_of_mem _ hz)
      · intro z hz hlast
        exact hnext z (List.mem_cons_of_mem _ hz) (hgetLast ▸ hlast)
      · intro z hz
        exact hlast z (hgetLast.trans hz)

/-- The predecessor of the first element changes. -/
theorem Linked.setPrev (h : Linked next prev before l after)
    (hnext : ∀ z ∈ l, next' z = next z) (hprev : ∀ z ∈ l.tail, prev' z = prev z)
    (hhead : ∀ z, l.head? = some z → prev' z = before') : Linked next' prev' before' l after := by
  have hcongr : ∀ {before : Option ι} {l : List ι}, Linked next prev before l after →
      (∀ z ∈ l, next' z = next z) → (∀ z ∈ l, prev' z = prev z) →
        Linked next' prev' before l after := by
    intro before l
    induction l generalizing before with
    | nil => exact fun _ _ _ => trivial
    | cons x l ih =>
      rintro ⟨⟨hp, hn⟩, hl⟩ hnext hprev
      refine ⟨⟨(hprev x List.mem_cons_self).trans hp, (hnext x List.mem_cons_self).trans hn⟩, ?_⟩
      exact ih hl (fun z hz => hnext z (List.mem_cons_of_mem _ hz)) fun z hz =>
        hprev z (List.mem_cons_of_mem _ hz)
  cases l with
  | nil => trivial
  | cons x l =>
    obtain ⟨⟨hp, hn⟩, hl⟩ := h
    refine ⟨⟨hhead x rfl, (hnext x List.mem_cons_self).trans hn⟩, ?_⟩
    exact hcongr hl (fun z hz => hnext z (List.mem_cons_of_mem _ hz)) hprev

theorem Linked.congr (h : Linked next prev before l after) (hnext : ∀ z ∈ l, next' z = next z)
    (hprev : ∀ z ∈ l, prev' z = prev z) : Linked next' prev' before l after := by
  refine h.setPrev hnext (fun z hz => hprev z (List.mem_of_mem_tail hz)) ?_
  intro z hz
  cases l with
  | nil => cases hz
  | cons x l =>
    obtain rfl := Option.some_inj.mp hz
    exact (hprev x List.mem_cons_self).trans h.1.1

/-- The neighbours of an element, and the lists before and behind it. -/
theorem Linked.middle (h : Linked next prev none (l₁ ++ x :: l₂) none) :
    prev x = l₁.getLast? ∧ next x = l₂.head? ∧ Linked next prev none l₁ (some x) ∧
      Linked next prev (some x) l₂ none := by
  obtain ⟨h₁, ⟨hp, hn⟩, h₂⟩ := linked_append.mp h
  rw [Option.or_none] at hp hn
  exact ⟨hp, hn, h₁, h₂⟩

/-- The neighbours of a place in the list are led to `m`, the elements that take it. -/
theorem Linked.splice {m m' : List ι} (h : Linked next prev none (l₁ ++ m ++ l₂) none)
    (hnodup : (l₁ ++ m ++ l₂).Nodup)
    (hnext₁ : ∀ z ∈ l₁, some z ≠ l₁.getLast? → next' z = next z)
    (hprev₁ : ∀ z ∈ l₁, prev' z = prev z)
    (hnext₂ : ∀ z ∈ l₂, next' z = next z) (hprev₂ : ∀ z ∈ l₂.tail, prev' z = prev z)
    (hlast : ∀ z, l₁.getLast? = some z → next' z = (m' ++ l₂).head?)
    (hhead : ∀ z, l₂.head? = some z → prev' z = (l₁ ++ m').getLast?)
    (hm : Linked next' prev' l₁.getLast? m' l₂.head?) :
    Linked next' prev' none (l₁ ++ m' ++ l₂) none := by
  rw [List.append_assoc] at h hnodup
  obtain ⟨h₁, h₂⟩ := linked_append.mp h
  obtain ⟨-, h₂⟩ := linked_append.mp h₂
  rw [List.append_assoc, linked_append, linked_append, Option.or_none, Option.or_none,
    Option.or_none]
  refine ⟨h₁.setNext hnodup.of_append_left hprev₁ hnext₁ hlast, hm, ?_⟩
  refine h₂.setPrev hnext₂ hprev₂ ?_
  intro z hz
  rw [hhead z hz, List.getLast?_append]

/-- The neighbours of an element are led past it. -/
theorem Linked.erase (h : Linked next prev none (l₁ ++ x :: l₂) none)
    (hnodup : (l₁ ++ x :: l₂).Nodup)
    (hlast : ∀ z, l₁.getLast? = some z → next' z = l₂.head?)
    (hhead : ∀ z, l₂.head? = some z → prev' z = l₁.getLast?)
    (hnext : ∀ z, l₁.getLast? ≠ some z → next' z = next z)
    (hprev : ∀ z, l₂.head? ≠ some z → prev' z = prev z) :
    Linked next' prev' none (l₁ ++ l₂) none := by
  have hsplit : l₁ ++ x :: l₂ = l₁ ++ [x] ++ l₂ := by rw [List.append_assoc]; rfl
  rw [hsplit] at h hnodup
  have hdisjoint : ∀ z ∈ l₁, z ∉ l₂ := fun z hz hz' =>
    List.disjoint_of_nodup_append hnodup (List.mem_append_left _ hz) hz'
  have herase : Linked next' prev' none (l₁ ++ [] ++ l₂) none := by
    refine h.splice hnodup ?_ ?_ ?_ ?_ ?_ ?_ linked_nil
    · exact fun z _ hne => hnext z (Ne.symm hne)
    · exact fun z hz => hprev z fun hz' => hdisjoint z hz (List.mem_of_mem_head? hz')
    · exact fun z hz => hnext z fun hz' => hdisjoint z (List.mem_of_getLast? hz') hz
    · intro z hz
      refine hprev z fun hz' => ?_
      have hnodup₂ := hnodup.of_append_right
      cases l₂ with
      | nil => cases hz'
      | cons n l =>
        obtain rfl := Option.some_inj.mp hz'
        exact (List.nodup_cons.mp hnodup₂).1 hz
    · exact fun z hz => hlast z hz
    · intro z hz
      rw [hhead z hz, List.append_nil]
  rwa [List.append_nil] at herase

/-- The neighbours of a place in the list are led to a new element. -/
theorem Linked.insert (h : Linked next prev none (l₁ ++ l₂) none)
    (hnodup : (l₁ ++ x :: l₂).Nodup)
    (hlast : ∀ z, l₁.getLast? = some z → next' z = some x)
    (hhead : ∀ z, l₂.head? = some z → prev' z = some x)
    (hx : prev' x = l₁.getLast? ∧ next' x = l₂.head?)
    (hnext : ∀ z, z ≠ x → l₁.getLast? ≠ some z → next' z = next z)
    (hprev : ∀ z, z ≠ x → l₂.head? ≠ some z → prev' z = prev z) :
    Linked next' prev' none (l₁ ++ x :: l₂) none := by
  have hsplit : l₁ ++ x :: l₂ = l₁ ++ [x] ++ l₂ := by rw [List.append_assoc]; rfl
  have hx₁ : ∀ z ∈ l₁, z ≠ x := by
    rintro z hz rfl
    exact List.disjoint_of_nodup_append hnodup hz List.mem_cons_self
  have hnodup₂ := List.nodup_cons.mp hnodup.of_append_right
  have hx₂ : ∀ z ∈ l₂, z ≠ x := by
    rintro z hz rfl
    exact hnodup₂.1 hz
  have hdisjoint : ∀ z ∈ l₁, z ∉ l₂ := fun z hz hz' =>
    List.disjoint_of_nodup_append hnodup hz (List.mem_cons_of_mem _ hz')
  have hbefore : Linked next prev none (l₁ ++ [] ++ l₂) none := by rwa [List.append_nil]
  rw [hsplit]
  refine hbefore.splice ?_ ?_ ?_ ?_ ?_ ?_ ?_ ⟨⟨hx.1, ?_⟩, linked_nil⟩
  · rw [List.append_nil]
    exact hnodup.sublist ((List.sublist_cons_self x l₂).append_left l₁)
  · exact fun z hz hne => hnext z (hx₁ z hz) (Ne.symm hne)
  · exact fun z hz => hprev z (hx₁ z hz) fun hz' => hdisjoint z hz (List.mem_of_mem_head? hz')
  · exact fun z hz => hnext z (hx₂ z hz) fun hz' => hdisjoint z (List.mem_of_getLast? hz') hz
  · intro z hz
    refine hprev z (hx₂ z (List.mem_of_mem_tail hz)) fun hz' => ?_
    cases l₂ with
    | nil => cases hz'
    | cons n l =>
      obtain rfl := Option.some_inj.mp hz'
      exact (List.nodup_cons.mp hnodup₂.2).1 hz
  · exact fun z hz => hlast z hz
  · intro z hz
    rw [hhead z hz, List.getLast?_concat]
  · rw [hx.2, List.head?_nil, Option.none_or]

/-! ### Along the pointers -/

/-- From `p` on, `l` is met, and then `q`. -/
def Path (link : ι → Option ι) : Option ι → List ι → Option ι → Prop
  | p, [], q => p = q
  | p, x :: l, q => p = some x ∧ Path link (link x) l q

theorem path_append {link : ι → Option ι} {p q : Option ι} :
    Path link p (l₁ ++ l₂) q ↔ ∃ r, Path link p l₁ r ∧ Path link r l₂ q := by
  induction l₁ generalizing p with
  | nil => exact ⟨fun h => ⟨p, rfl, h⟩, fun ⟨r, hr, h⟩ => hr ▸ h⟩
  | cons x l ih =>
    show p = some x ∧ Path link (link x) (l ++ l₂) q ↔ _
    rw [ih]
    exact ⟨fun ⟨hp, r, hr, h⟩ => ⟨r, ⟨hp, hr⟩, h⟩, fun ⟨r, ⟨hp, hr⟩, h⟩ => ⟨hp, r, hr, h⟩⟩

theorem Linked.path (h : Linked next prev before l after) :
    Path next (l.head?.or after) l after := by
  induction l generalizing before with
  | nil => rfl
  | cons x l ih =>
    obtain ⟨⟨-, hnext⟩, hl⟩ := h
    refine ⟨rfl, ?_⟩
    rw [hnext]
    exact ih hl

theorem Linked.path_reverse (h : Linked next prev before l after) :
    Path prev (l.getLast?.or before) l.reverse before := by
  induction l generalizing before with
  | nil => rfl
  | cons x l ih =>
    obtain ⟨⟨hprev, -⟩, hl⟩ := h
    have hlast : (x :: l).getLast?.or before = l.getLast?.or (some x) := by
      rw [List.getLast?_cons]
      cases l.getLast? <;> rfl
    rw [hlast, List.reverse_cons, path_append]
    exact ⟨some x, ih hl, rfl, hprev⟩

end Pointers
