/-
A server with context handles: managers of its clients and rundowns, in any order.

Each operation runs with the mutex of the tables held.  A rundown that finds managers in waits on the
condition of the client's entry and is woken at any time after; the model takes the lock behind
`RPC_SS_THREADS_CONDITION_WAIT` as the one that the wait gave up.

* `Sound` — what the tables say of the contexts, the managers and the rundowns;
* `Undisturbed` — a manager counts on the entry that the others count on, and a rundown is alone on
  its entry and does not read it after it has freed it;
* `contexts_of_along` — the tables of a run of such steps are sound.
-/
import FreeDce.Idl.ContextRundown

namespace Idl

namespace Ctx

/-- An entry in its hash table. -/
def Ref.InTable : Ref → Prop
  | .home _ => True
  | .heap _ => False

instance : (c : Ref) → Decidable c.InTable
  | .home _ => .isTrue trivial
  | .heap _ => .isFalse id

theorem Ref.inTable_iff (c : Ref) : c.InTable ↔ ∃ slot, c = .home slot := by
  cases c with
  | home slot => exact iff_of_true trivial ⟨slot, rfl⟩
  | heap n => exact iff_of_false id nofun

/-- The tables, the managers of each client between their two calls and the entries on which a
rundown waits.  The lists have the UUIDs of the contexts created, destroyed by a manager, and run
down. -/
structure Server where
  tables : Tables
  managers : ℕ → ℕ
  waiting : List Ref
  created : List ℕ
  destroyed : List ℕ
  runDown : List ℕ

def Server.init : Server where
  tables := .init
  managers _ := 0
  waiting := []
  created := []
  destroyed := []
  runDown := []

inductive Op
  | enter (id : ℕ)
  | leave (id : ℕ)
  | create (id uuid userContext : ℕ) (rundown : Bool)
  | update (id uuid userContext : ℕ)
  | destroy (id uuid : ℕ)
  | rundown (id : ℕ)
  | wake (c : Ref)

namespace Server

variable (uuidHash : ℕ → Fin 256) (s : Server)

/-- `rpc_ss_rundown_client` at the test of `ref_count`. -/
def rundownClient (c : Ref) : Option Server := do
  let ce ← s.tables.readClient c
  if ce.refCount ≠ 0 then do
    let t ← s.tables.writeClient c fun ce => { ce with rundownPending := true }
    some { s with tables := t, waiting := c :: s.waiting }
  else do
    let (t, uuids) ← s.tables.rundownEntry uuidHash c
    some { s with tables := t, runDown := uuids ++ s.runDown }

/-- A step answers `none` when it reads an entry that is not allocated. -/
def step : Server → Op → Option Server
  | s, .enter id => do
    let t ← s.tables.refCountI2 id
    some { s with tables := t, managers := Function.update s.managers id (s.managers id + 1) }
  | s, .leave id => do
    let t ← s.tables.refCountD2 id
    some { s with tables := t, managers := Function.update s.managers id (s.managers id - 1) }
  | s, .create id uuid userContext rundown => do
    let t ← s.tables.createCalleeContext uuidHash uuid userContext rundown id
    some { s with tables := t, created := uuid :: s.created }
  | s, .update _ uuid userContext => do
    let t ← s.tables.updateCalleeContext uuidHash uuid userContext
    some { s with tables := t }
  | s, .destroy _ uuid => do
    match ← s.tables.lkddestCalleeContext uuidHash uuid with
    | (t, none) => some { s with tables := t }
    | (t, some _) => some { s with tables := t, destroyed := uuid :: s.destroyed }
  | s, .rundown id => do
    match ← s.tables.findClient id with
    | none => some s
    | some c => s.rundownClient uuidHash c
  | s, .wake c => { s with waiting := s.waiting.erase c }.rundownClient uuidHash c

/-- What a server can do: contexts are handled by managers that are in, and have new UUIDs. -/
def Allowed : Op → Prop
  | .enter id => id ≠ 0
  | .leave id => id ≠ 0 ∧ 0 < s.managers id
  | .create id uuid _ _ => (id ≠ 0 ∧ 0 < s.managers id) ∧ uuid ≠ 0 ∧ uuid ∉ s.created
  | .update id uuid _ => 0 < s.managers id ∧ uuid ≠ 0
  | .destroy id uuid => 0 < s.managers id ∧ uuid ≠ 0
  | .rundown id => id ≠ 0
  | .wake c => c ∈ s.waiting

/-- A rundown that does not wait finds its entry without contexts or in the table. -/
def Clean (c : Ref) : Prop :=
  (s.tables.client c).refCount = 0 → (s.tables.client c).count = 0 ∨ c.InTable

/-- The steps after which the tables are sound. -/
def Undisturbed : Op → Prop
  | .enter id => s.tables.findClient id = some none → s.managers id = 0
  | .leave _ => True
  | .create id _ _ _ => s.tables.findClient id ≠ some none
  | .update _ _ _ => True
  | .destroy _ _ => True
  | .rundown id => ∀ c ∈ (s.tables.findClient id).join,
    (s.tables.client c).rundownPending = false ∧ s.Clean c
  | .wake c => s.Clean c

instance (c : Ref) : Decidable (s.Clean c) := inferInstanceAs (Decidable (_ → _))

instance : (op : Op) → Decidable (s.Allowed op)
  | .enter _ => inferInstanceAs (Decidable (_ ≠ _))
  | .leave _ => inferInstanceAs (Decidable (_ ∧ _))
  | .create .. => inferInstanceAs (Decidable (_ ∧ _ ∧ _))
  | .update .. => inferInstanceAs (Decidable (_ ∧ _))
  | .destroy .. => inferInstanceAs (Decidable (_ ∧ _))
  | .rundown _ => inferInstanceAs (Decidable (_ ≠ _))
  | .wake c => inferInstanceAs (Decidable (c ∈ s.waiting))

instance : (op : Op) → Decidable (s.Undisturbed op)
  | .enter _ => inferInstanceAs (Decidable (_ → _))
  | .leave _ => .isTrue trivial
  | .create id .. => inferInstanceAs (Decidable (s.tables.findClient id ≠ some none))
  | .update .. => .isTrue trivial
  | .destroy .. => .isTrue trivial
  | .rundown id => inferInstanceAs (Decidable (∀ c ∈ (s.tables.findClient id).join,
      (s.tables.client c).rundownPending = false ∧ s.Clean c))
  | .wake c => inferInstanceAs (Decidable (s.Clean c))

/-- The table has the contexts that were created and are neither destroyed nor run down, which each
happens once at most; an entry counts the managers that are in; a rundown waits on the entry of
a client that is in the table. -/
structure Sound : Prop where
  ok : s.tables.Ok uuidHash
  has : ∀ u, u ≠ 0 → (s.tables.Has u ↔ u ∈ s.created ∧ u ∉ s.destroyed ∧ u ∉ s.runDown)
  ended : (s.destroyed ++ s.runDown).Nodup
  created : ∀ u ∈ s.destroyed ++ s.runDown, u ∈ s.created
  refCount : ∀ c, s.tables.Known c →
    (s.tables.client c).refCount = s.managers (s.tables.client c).client
  waiting : ∀ c ∈ s.waiting, s.tables.Known c
  alone : s.waiting.Nodup
  pending : ∀ c, s.tables.Known c → ((s.tables.client c).rundownPending = true ↔ c ∈ s.waiting)

variable {uuidHash s} {s' : Server} {t' : Tables} {c : Ref} {id uuid : ℕ}

/-! ### Steps -/

theorem not_known_init (c : Ref) : ¬ Tables.init.Known c := by
  cases c with
  | home slot => exact fun h => h rfl
  | heap n =>
    rintro ⟨slot, hmem⟩
    exact List.not_mem_nil hmem

theorem not_held_init (x : Ref) : ¬ Tables.init.Held x := by
  cases x with
  | home slot => exact fun h => h rfl
  | heap n =>
    rintro ⟨slot, hmem⟩
    exact List.not_mem_nil hmem

theorem ok_init : Tables.init.Ok uuidHash where
  contexts := ⟨fun _ => rfl, fun _ _ h => absurd h List.not_mem_nil, fun _ _ => rfl,
    fun _ h => absurd rfl h, fun _ _ h => absurd h List.not_mem_nil, fun _ => List.nodup_nil,
    fun x _ h => absurd h (not_held_init x)⟩
  clients := ⟨fun _ => rfl, fun _ _ h => absurd h List.not_mem_nil, fun _ h => absurd rfl h,
    fun _ _ h => absurd h List.not_mem_nil, fun _ => List.nodup_nil,
    fun c _ h => absurd h (not_known_init c)⟩
  lists := ⟨fun _ => [], fun c h => absurd h (not_known_init c),
    fun c h => absurd h (not_known_init c), fun x h => absurd h (not_held_init x)⟩

theorem Sound.init : Server.init.Sound uuidHash where
  ok := ok_init
  has _ _ := iff_of_false (fun ⟨x, hx, _⟩ => not_held_init x hx) fun h => List.not_mem_nil h.1
  ended := List.nodup_nil
  created _ hu := absurd hu List.not_mem_nil
  refCount c hc := absurd hc (not_known_init c)
  waiting _ hc := absurd hc List.not_mem_nil
  alone := List.nodup_nil
  pending c hc := absurd hc (not_known_init c)

/-- The entry of a client is found if it has one. -/
theorem Sound.findClient (h : s.Sound uuidHash) (h0 : id ≠ 0) :
    (∃ c, s.tables.Known c ∧ (s.tables.client c).client = id ∧
      s.tables.findClient id = some (some c)) ∨
    (∀ c, s.tables.Known c → (s.tables.client c).client ≠ id) ∧
      s.tables.findClient id = some none := by
  by_cases hex : ∃ c, s.tables.Known c ∧ (s.tables.client c).client = id
  · obtain ⟨c, hc, rfl⟩ := hex
    exact Or.inl ⟨c, hc, rfl, Tables.findClient_eq h.ok.clients hc⟩
  · have habsent : ∀ c, s.tables.Known c → (s.tables.client c).client ≠ id :=
      fun c hc heq => hex ⟨c, hc, heq⟩
    exact Or.inr ⟨habsent, Tables.findClient_absent h.ok.clients h0 habsent⟩

theorem Sound.enter (h : s.Sound uuidHash) (h0 : id ≠ 0) (hop : s.Undisturbed (.enter id)) :
    ∃ s', step uuidHash s (.enter id) = some s' ∧ s'.Sound uuidHash := by
  rcases h.findClient h0 with ⟨c, hc, rfl, -⟩ | ⟨habsent, hfind⟩
  · obtain ⟨hok, hknown, hhas⟩ := h.ok.setClient (c := c)
      (f := fun ce => { ce with refCount := ce.refCount + 1 }) fun _ => ⟨rfl, rfl, rfl, rfl⟩
    set t' := s.tables.setClient c fun ce => { ce with refCount := ce.refCount + 1 } with ht'
    have hself : t'.client c
        = { s.tables.client c with refCount := (s.tables.client c).refCount + 1 } :=
      (Tables.client_setClient c c _).trans (if_pos rfl)
    have hother : ∀ d ≠ c, t'.client d = s.tables.client d :=
      fun d hd => (Tables.client_setClient c d _).trans (if_neg hd)
    refine ⟨{ s with tables := t', managers :=
      Function.update s.managers (s.tables.client c).client (s.managers (s.tables.client c).client + 1) }, ?_, ⟨hok,
      fun u hu => (hhas u).trans (h.has u hu), h.ended, h.created, fun d hd => ?_,
      fun d hd => (hknown d).mpr (h.waiting d hd), h.alone, fun d hd => ?_⟩⟩
    · rw [step, Tables.refCountI2_known h.ok hc]
      rfl
    · have hd' := (hknown d).mp hd
      show (t'.client d).refCount = Function.update s.managers _ _ (t'.client d).client
      by_cases hdc : d = c
      · rw [hdc, hself]
        show (s.tables.client c).refCount + 1 = _
        rw [Function.update_self, h.refCount c hc]
        push_cast
        rfl
      · rw [hother d hdc, Function.update_of_ne fun heq => hdc (h.ok.clients.inj d c hd' hc heq)]
        exact h.refCount d hd'
    · have hd' := (hknown d).mp hd
      show (t'.client d).rundownPending = true ↔ _
      by_cases hdc : d = c
      · rw [hdc, hself]
        exact h.pending c hc
      · rw [hother d hdc]
        exact h.pending d hd'
  · obtain ⟨t', c, hrun, hok, hnot, hknown, hclient, hhas⟩ :=
      Tables.refCountI2_new h.ok h0 habsent
    refine ⟨{ s with tables := t', managers :=
      Function.update s.managers id (s.managers id + 1) }, ?_, ⟨hok,
      fun u hu => (hhas u).trans (h.has u hu), h.ended, h.created, fun d hd => ?_,
      fun d hd => (hknown d).mpr (Or.inl (h.waiting d hd)), h.alone, fun d hd => ?_⟩⟩
    · rw [step, hrun]
      rfl
    · show (t'.client d).refCount = Function.update s.managers _ _ (t'.client d).client
      rw [hclient]
      by_cases hdc : d = c
      · rw [if_pos hdc]
        show (1 : ℤ) = Function.update s.managers id _ id
        rw [Function.update_self, hop hfind]
        rfl
      · have hd' := ((hknown d).mp hd).resolve_right hdc
        rw [if_neg hdc, Function.update_of_ne (habsent d hd')]
        exact h.refCount d hd'
    · show (t'.client d).rundownPending = true ↔ d ∈ s.waiting
      rw [hclient]
      by_cases hdc : d = c
      · rw [if_pos hdc, hdc]
        exact iff_of_false Bool.false_ne_true fun hw => hnot (h.waiting c hw)
      · rw [if_neg hdc]
        exact h.pending d (((hknown d).mp hd).resolve_right hdc)

theorem Sound.leave (h : s.Sound uuidHash) (hin : 0 < s.managers id) (h0 : id ≠ 0) :
    ∃ s', step uuidHash s (.leave id) = some s' ∧ s'.Sound uuidHash := by
  rcases h.findClient h0 with ⟨c, hc, rfl, -⟩ | ⟨habsent, hfind⟩
  · obtain ⟨t', hrun, hok, hknown, hgone, hclient, hhas⟩ := Tables.refCountD2_known h.ok hc
    refine ⟨{ s with tables := t', managers :=
      Function.update s.managers (s.tables.client c).client (s.managers (s.tables.client c).client - 1) }, ?_, ⟨hok,
      fun u hu => (hhas u).trans (h.has u hu), h.ended, h.created, fun d hd => ?_, fun d hd => ?_,
      h.alone, fun d hd => ?_⟩⟩
    · rw [step, hrun]
      rfl
    · have hd' := hknown d hd
      show (t'.client d).refCount = Function.update s.managers _ _ (t'.client d).client
      rw [hclient d hd]
      by_cases hdc : d = c
      · rw [if_pos hdc]
        show (s.tables.client c).refCount - 1
          = Function.update s.managers (s.tables.client c).client _ (s.tables.client c).client
        rw [Function.update_self, h.refCount c hc]
        omega
      · rw [if_neg hdc, Function.update_of_ne fun heq => hdc (h.ok.clients.inj d c hd' hc heq)]
        exact h.refCount d hd'
    · -- an entry on which a rundown waits stays
      by_contra hn
      obtain ⟨rfl, hpending⟩ := hgone d (h.waiting d hd) hn
      rw [(h.pending d hc).mpr hd] at hpending
      cases hpending
    · have hd' := hknown d hd
      show (t'.client d).rundownPending = true ↔ _
      rw [hclient d hd]
      by_cases hdc : d = c
      · rw [if_pos hdc, hdc]
        exact h.pending c hc
      · rw [if_neg hdc]
        exact h.pending d hd'
  · refine ⟨{ s with managers := Function.update s.managers id (s.managers id - 1) }, ?_,
      ⟨h.ok, h.has, h.ended, h.created, fun d hd => ?_, h.waiting, h.alone, h.pending⟩⟩
    · rw [step, Tables.refCountD2, hfind]
      rfl
    · show _ = ((Function.update s.managers id _ (s.tables.client d).client : ℕ) : ℤ)
      rw [Function.update_of_ne (habsent d hd)]
      exact h.refCount d hd

theorem Sound.create (h : s.Sound uuidHash) (h0 : id ≠ 0) (hu0 : uuid ≠ 0)
    (hnew : uuid ∉ s.created) {userContext : ℕ} {rundown : Bool}
    (hop : s.Undisturbed (.create id uuid userContext rundown)) :
    ∃ s', step uuidHash s (.create id uuid userContext rundown) = some s' ∧ s'.Sound uuidHash := by
  rcases h.findClient h0 with ⟨c, hc, rfl, -⟩ | ⟨-, hfind⟩
  · have hfresh : ¬ s.tables.Has uuid := fun hhas => hnew ((h.has uuid hu0).mp hhas).1
    have hnotEnded : uuid ∉ s.destroyed ++ s.runDown := fun hm => hnew (h.created uuid hm)
    rw [List.mem_append, not_or] at hnotEnded
    obtain ⟨t', hrun, hok, hknown, hdata, hhas⟩ :=
      Tables.createCalleeContext_spec h.ok hc hu0 hfresh userContext rundown
    refine ⟨{ s with tables := t', created := uuid :: s.created }, ?_, ⟨hok, fun u hu => ?_, h.ended,
      fun u hu => List.mem_cons_of_mem _ (h.created u hu), fun d hd => ?_,
      fun d hd => (hknown d).mpr (h.waiting d hd), h.alone, fun d hd => ?_⟩⟩
    · rw [step, hrun]
      rfl
    · show t'.Has u ↔ u ∈ uuid :: s.created ∧ u ∉ s.destroyed ∧ u ∉ s.runDown
      rw [hhas, h.has u hu, List.mem_cons]
      constructor
      · rintro (⟨hc, hn⟩ | rfl)
        · exact ⟨Or.inr hc, hn⟩
        · exact ⟨Or.inl rfl, hnotEnded⟩
      · rintro ⟨rfl | hc, hn⟩
        · exact Or.inr rfl
        · exact Or.inl ⟨hc, hn⟩
    · obtain ⟨h₁, h₂, -⟩ := hdata d
      show (t'.client d).refCount = s.managers (t'.client d).client
      rw [h₁, h₂]
      exact h.refCount d ((hknown d).mp hd)
    · show (t'.client d).rundownPending = true ↔ _
      rw [(hdata d).2.2]
      exact h.pending d ((hknown d).mp hd)
  · exact absurd hfind hop

theorem Sound.update (h : s.Sound uuidHash) (id uuid userContext : ℕ) :
    ∃ s', step uuidHash s (.update id uuid userContext) = some s' ∧ s'.Sound uuidHash := by
  obtain ⟨t', hrun, hok, hknown, hclient, hhas⟩ :=
    Tables.updateCalleeContext_spec h.ok uuid userContext
  refine ⟨{ s with tables := t' }, ?_, ⟨hok, fun u hu => (hhas u).trans (h.has u hu), h.ended,
    h.created, fun d hd => ?_, fun d hd => (hknown d).mpr (h.waiting d hd), h.alone, fun d hd => ?_⟩⟩
  · rw [step, hrun]
    rfl
  · show (t'.client d).refCount = s.managers (t'.client d).client
    rw [hclient]
    exact h.refCount d ((hknown d).mp hd)
  · show (t'.client d).rundownPending = true ↔ _
    rw [hclient]
    exact h.pending d ((hknown d).mp hd)

theorem Sound.destroy (h : s.Sound uuidHash) (id : ℕ) (hu0 : uuid ≠ 0) :
    ∃ s', step uuidHash s (.destroy id uuid) = some s' ∧ s'.Sound uuidHash := by
  by_cases hin : s.tables.Has uuid
  · have hin' := hin
    obtain ⟨x, hx, rfl⟩ := hin'
    obtain ⟨t', close, hrun, hok, htaken, hhas⟩ := Tables.lkddestCalleeContext_spec h.ok hx
    set uuid := (s.tables.context x).uuid with huuid
    obtain ⟨hcreated, hnd, hnr⟩ := (h.has uuid hu0).mp hin
    refine ⟨{ s with tables := t', destroyed := uuid :: s.destroyed }, ?_, ⟨hok, fun u hu => ?_, ?_,
      fun u hu => ?_, fun d hd => ?_, fun d hd => ?_, h.alone, fun d hd => ?_⟩⟩
    · rw [step, hrun]
      rfl
    · show t'.Has u ↔ u ∈ s.created ∧ u ∉ uuid :: s.destroyed ∧ u ∉ s.runDown
      rw [hhas u hu, h.has u hu, List.mem_cons, not_or]
      tauto
    · have hnot : uuid ∉ s.destroyed ++ s.runDown := by
        rw [List.mem_append, not_or]
        exact ⟨hnd, hnr⟩
      exact List.nodup_cons.mpr ⟨hnot, h.ended⟩
    · rcases List.mem_cons.mp hu with rfl | hu
      · exact hcreated
      · exact h.created u hu
    · obtain ⟨h₁, h₂, -⟩ := htaken.same d hd
      show (t'.client d).refCount = s.managers (t'.client d).client
      rw [h₁, h₂]
      exact h.refCount d ((htaken.known d).mp hd).1
    · have hd' := h.waiting d hd
      refine (htaken.known d).mpr ⟨hd', ?_⟩
      rintro ⟨rfl, -, hpending⟩
      rw [(h.pending _ hd').mpr hd] at hpending
      cases hpending
    · show (t'.client d).rundownPending = true ↔ _
      rw [(htaken.same d hd).2.2]
      exact h.pending d ((htaken.known d).mp hd).1
  · refine ⟨s, ?_, h⟩
    rw [step, Tables.lkddestCalleeContext_absent h.ok.contexts hu0 hin]
    rfl

/-- A rundown that is alone on its entry waits, or runs the client down. -/
theorem Sound.rundownClient {w : List Ref} (h : s.Sound uuidHash) (hc : s.tables.Known c)
    (hclean : s.Clean c) (hw : w.Nodup) (hcw : c ∉ w) (hwait : ∀ d ∈ w, s.tables.Known d)
    (hpending : ∀ d ≠ c, s.tables.Known d →
      ((s.tables.client d).rundownPending = true ↔ d ∈ w)) :
    ∃ s', { s with waiting := w }.rundownClient uuidHash c = some s' ∧ s'.Sound uuidHash := by
  have hfreed := h.ok.clients.not_freed hc
  rw [Server.rundownClient, Tables.readClient_eq hfreed]
  show ∃ s', (if (s.tables.client c).refCount ≠ 0 then _ else _) = some s' ∧ _
  by_cases hzero : (s.tables.client c).refCount = 0
  · obtain ⟨t', uuids, hrun, hok, hknown, hdata, hnodup, hmem, hhas⟩ :=
      Tables.rundownEntry_spec h.ok hc ((hclean hzero).imp id (Ref.inTable_iff c).mp)
    have hin : ∀ u ∈ uuids, u ∈ s.created ∧ u ∉ s.destroyed ∧ u ∉ s.runDown :=
      fun u hu => (h.has u (hmem u hu).1).mp (hmem u hu).2
    rw [if_neg (not_not.mpr hzero), hrun]
    refine ⟨{ s with tables := t', waiting := w, runDown := uuids ++ s.runDown }, rfl, ⟨hok,
      fun u hu => ?_, ?_, fun u hu => ?_, fun d hd => ?_, fun d hd => ?_, hw, fun d hd => ?_⟩⟩
    · show t'.Has u ↔ u ∈ s.created ∧ u ∉ s.destroyed ∧ u ∉ uuids ++ s.runDown
      rw [hhas u hu, h.has u hu, List.mem_append, not_or]
      tauto
    · show (s.destroyed ++ (uuids ++ s.runDown)).Nodup
      have hended := h.ended
      rw [List.nodup_append] at hended ⊢
      refine ⟨hended.1, ?_, fun a ha b hb heq => ?_⟩
      · rw [List.nodup_append]
        refine ⟨hnodup, hended.2.1, fun a ha b hb heq => ?_⟩
        rw [← heq] at hb
        exact (hin a ha).2.2 hb
      · rcases List.mem_append.mp hb with hb | hb
        · rw [heq] at ha
          exact (hin b hb).2.1 ha
        · exact hended.2.2 a ha b hb heq
    · rcases List.mem_append.mp hu with hu | hu
      · exact h.created u (List.mem_append_left _ hu)
      · rcases List.mem_append.mp hu with hu | hu
        · exact (hin u hu).1
        · exact h.created u (List.mem_append_right _ hu)
    · obtain ⟨h₁, h₂, -⟩ := hdata d hd
      show (t'.client d).refCount = s.managers (t'.client d).client
      rw [h₁, h₂]
      exact h.refCount d ((hknown d).mp hd).1
    · refine (hknown d).mpr ⟨hwait d hd, ?_⟩
      rintro rfl
      exact hcw hd
    · obtain ⟨hd', hne⟩ := (hknown d).mp hd
      show (t'.client d).rundownPending = true ↔ _
      rw [(hdata d hd).2.2]
      exact hpending d hne hd'
  · obtain ⟨hok, hknown, hhas⟩ := h.ok.setClient (c := c)
      (f := fun ce => { ce with rundownPending := true }) fun _ => ⟨rfl, rfl, rfl, rfl⟩
    set t' := s.tables.setClient c fun ce => { ce with rundownPending := true } with ht'
    have hself : t'.client c = { s.tables.client c with rundownPending := true } :=
      (Tables.client_setClient c c _).trans (if_pos rfl)
    have hother : ∀ d ≠ c, t'.client d = s.tables.client d :=
      fun d hd => (Tables.client_setClient c d _).trans (if_neg hd)
    rw [if_pos hzero, Tables.writeClient_eq hfreed]
    refine ⟨{ s with tables := t', waiting := c :: w }, rfl, ⟨hok,
      fun u hu => (hhas u).trans (h.has u hu), h.ended, h.created, fun d hd => ?_, fun d hd => ?_,
      List.nodup_cons.mpr ⟨hcw, hw⟩, fun d hd => ?_⟩⟩
    · show (t'.client d).refCount = s.managers (t'.client d).client
      by_cases hdc : d = c
      · rw [hdc, hself]
        exact h.refCount c hc
      · rw [hother d hdc]
        exact h.refCount d ((hknown d).mp hd)
    · rcases List.mem_cons.mp hd with rfl | hd
      · exact (hknown _).mpr hc
      · exact (hknown d).mpr (hwait d hd)
    · show (t'.client d).rundownPending = true ↔ d ∈ c :: w
      by_cases hdc : d = c
      · rw [hdc, hself]
        exact iff_of_true rfl List.mem_cons_self
      · rw [hother d hdc, List.mem_cons, or_iff_right hdc]
        exact hpending d hdc ((hknown d).mp hd)

theorem Sound.rundown (h : s.Sound uuidHash) (h0 : id ≠ 0) (hop : s.Undisturbed (.rundown id)) :
    ∃ s', step uuidHash s (.rundown id) = some s' ∧ s'.Sound uuidHash := by
  rw [step]
  rcases h.findClient h0 with ⟨c, hc, -, hfind⟩ | ⟨-, hfind⟩
  · obtain ⟨hpending, hclean⟩ := hop c (by rw [hfind]; rfl)
    rw [hfind]
    have hcw : c ∉ s.waiting := by
      rw [← h.pending c hc, hpending]
      exact Bool.false_ne_true
    exact h.rundownClient hc hclean h.alone hcw h.waiting fun d _ hd => h.pending d hd
  · rw [hfind]
    exact ⟨s, rfl, h⟩

theorem Sound.wake (h : s.Sound uuidHash) (hc : c ∈ s.waiting) (hop : s.Clean c) :
    ∃ s', step uuidHash s (.wake c) = some s' ∧ s'.Sound uuidHash := by
  refine h.rundownClient (h.waiting c hc) hop (h.alone.erase c) ?_ ?_ ?_
  · exact fun hmem => (h.alone.mem_erase_iff.mp hmem).1 rfl
  · exact fun d hd => h.waiting d (List.mem_of_mem_erase hd)
  · intro d hne hd
    rw [h.pending d hd, h.alone.mem_erase_iff]
    exact ⟨fun hm => ⟨hne, hm⟩, And.right⟩

theorem sound_step {op : Op} (h : s.Sound uuidHash) (hallowed : s.Allowed op)
    (hop : s.Undisturbed op) : ∃ s', step uuidHash s op = some s' ∧ s'.Sound uuidHash := by
  cases op with
  | enter id => exact h.enter hallowed hop
  | leave id => exact h.leave hallowed.2 hallowed.1
  | create id uuid userContext rundown => exact h.create hallowed.1.1 hallowed.2.1 hallowed.2.2 hop
  | update id uuid userContext => exact h.update id uuid userContext
  | destroy id uuid => exact h.destroy id hallowed.2
  | rundown id => exact h.rundown hallowed hop
  | wake c => exact h.wake hallowed hop

/-- In a run where a manager enters or creates a context only with the entry that the other managers
of its client count on, and where a rundown is alone on its entry and finds it in the table or
without contexts, the tables are sound. -/
theorem contexts_of_along (uuidHash : ℕ → Fin 256) (ops : List Op)
    (hops : Runs.Along (step uuidHash) (fun s op => s.Allowed op ∧ s.Undisturbed op) .init ops) :
    ∃ t, Runs.exec (step uuidHash) .init ops = some t ∧ t.Sound uuidHash :=
  Runs.exec_of_along (fun _ _ h hop => sound_step h hop.1 hop.2) Sound.init hops

attribute [local instance] neZero_slots

/-- Two clients of one slot; a rundown waits for a manager while another destroys a context. -/
def orderlyOps : List Op :=
  [.enter 16, .create 16 1 0 true, .enter 16, .enter 4112, .create 16 257 0 true,
    .create 4112 2 0 true, .rundown 16, .update 16 257 5, .destroy 4112 1, .leave 16,
    .wake (.home 1), .leave 16, .wake (.home 1), .destroy 4112 2, .leave 4112]

theorem contexts_of_along_orderlyOps :
    ∃ t, Runs.exec (step (Fin.ofNat 256)) .init orderlyOps = some t ∧ t.Sound (Fin.ofNat 256) :=
  contexts_of_along (Fin.ofNat 256) orderlyOps (by decide)

/-- A manager destroys the last context of its client, creates another one and leaves. -/
def lastContextOps : List Op :=
  [.enter 16, .create 16 1 0 true, .destroy 16 1, .create 16 2 0 true, .leave 16]

theorem not_contexts_sound :
    ¬ ∀ (uuidHash : ℕ → Fin 256) (ops : List Op),
      Runs.Along (step uuidHash) (fun s op => s.Allowed op) .init ops →
        ∃ t, Runs.exec (step uuidHash) .init ops = some t ∧ t.Sound uuidHash := by
  intro h
  obtain ⟨t, ht, hsound⟩ := h (Fin.ofNat 256) lastContextOps (by decide)
  have hentry : (Runs.exec (step (Fin.ofNat 256)) .init lastContextOps).map (fun t =>
      ((t.tables.client (.home 1)).client, (t.tables.client (.home 1)).refCount)) = some (16, -1) := by
    decide
  rw [ht, Option.map_some, Option.some_inj, Prod.mk.injEq] at hentry
  have hknown : t.tables.Known (.home 1) := by
    rw [Tables.Known, hentry.1]
    decide
  have hcount := hsound.refCount _ hknown
  rw [hentry.2] at hcount
  omega

end Server

end Ctx

end Idl
