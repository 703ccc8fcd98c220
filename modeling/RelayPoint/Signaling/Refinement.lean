import RelayPoint.Concurrency.Serial
import RelayPoint.Signaling.Interaction

/-!
# Refinement — a router that works alone implements one interaction at a time

When one call runs after the other, the store answers and no cache reaches its bound, a call on an
interaction does to the caches and to the log what `Interaction.serve` does to the interaction, and
returns its reply.
-/

namespace RelayPoint.Signaling

open Concurrency Journal

/-! ## The environment -/

def Choice.isTime : Choice → Bool
  | .time _ => true
  | _ => false

def Choice.isName : Choice → Bool
  | .name _ => true
  | _ => false

def calm (max : Nat) : Op → Choice → Bool
  | .append .., ch => ch = .go || ch = .dedupFirst
  | .now, ch => ch.isTime
  | .newID, ch => ch.isName
  | .interPut _ _ st, ch | .unlock _ st, ch => ch = .go && st.results.hasRoom max
  | .replay .., ch | .interGet .., ch | .interDelete .., ch | .loadJoin .., ch | .loadWait _, ch
  | .loadDone .., ch | .lock .., ch => ch = .go

abbrev CalmlyServes (max : Nat) {α : Type} (Q : α → World → Prop) (prog : Program α) (w : World) :
    Prop :=
  Serves machine (fun _ op ch => calm max op ch = true) Q prog w

namespace CalmlyServes

section Operations

variable {max : Nat} {w : World} {α : Type} {Q : α → World → Prop} {r o : Nat} {key subject : String}
variable {st : InteractionState}

theorem now {k : Nat → Program α} (h : ∀ t, CalmlyServes max Q (k t) w) :
    CalmlyServes max Q (Signaling.now >>= k) w := by
  refine serves_perform fun ch hch => ?_
  cases ch with
  | time t => exact ⟨t, w, rfl, h t⟩
  | _ => cases hch

theorem newID {k : String → Program α} (h : ∀ s, CalmlyServes max Q (k s) w) :
    CalmlyServes max Q (Signaling.newID >>= k) w := by
  refine serves_perform fun ch hch => ?_
  cases ch with
  | name s => exact ⟨s, w, rfl, h s⟩
  | _ => cases hch

theorem perform_go {op : Op} {a : Ans op} {w' : World} {k : Ans op → Program α}
    (hgo : ∀ ch, calm max op ch = true → ch = .go) (hp : perform w op .go = some (a, w'))
    (h : CalmlyServes max Q (k a) w') : CalmlyServes max Q (Prog.perform op >>= k) w := by
  refine serves_perform fun ch hch => ?_
  rw [hgo ch hch]
  exact ⟨a, w', hp, h⟩

theorem interGet {k : Option Nat → Program α} (h : CalmlyServes max Q (k (w.inter r key)) w) :
    CalmlyServes max Q (Signaling.interGet r key >>= k) w :=
  perform_go (fun _ => of_decide_eq_true) rfl h

variable {k : Unit → Program α}

theorem interDelete (h : CalmlyServes max Q (k ()) { w with inter := setAt w.inter r key none }) :
    CalmlyServes max Q (Signaling.interDelete r key >>= k) w :=
  perform_go (fun _ => of_decide_eq_true) rfl h

theorem loadJoin {k : Flight → Program α} (hload : w.load r key = none)
    (h : CalmlyServes max Q (k (.lead w.flights.length)) (w.takeOff r key)) :
    CalmlyServes max Q (Signaling.loadJoin r key >>= k) w := by
  have hjoin : w.joinFlight r key = (.lead w.flights.length, w.takeOff r key) := by
    simp [World.joinFlight, hload]
  exact perform_go (fun _ => of_decide_eq_true) (congrArg some hjoin) h

theorem loadDone {f : Nat} {res : Option Nat} (h : CalmlyServes max Q (k ()) (w.land r key f res)) :
    CalmlyServes max Q (Signaling.loadDone r key f res >>= k) w :=
  perform_go (fun _ => of_decide_eq_true) rfl h

theorem lock {k : InteractionState → Program α} {site : LockSite} {cell : Cell}
    (hcell : w.heap[o]? = some cell) (hfree : cell.locked = false)
    (h : CalmlyServes max Q (k cell.st)
      { w with heap := w.heap.set o { cell with locked := true } }) :
    CalmlyServes max Q (Signaling.lock site o >>= k) w := by
  have hlock : w.lockCell o =
      some (cell.st, { w with heap := w.heap.set o { cell with locked := true } }) := by
    simp [World.lockCell, hcell, hfree]
  exact perform_go (fun _ => of_decide_eq_true) hlock h

theorem rebuild {rt : Router} {site : ReplaySite} {t i : String}
    {k : Option InteractionState → Program α}
    (h : CalmlyServes max Q (k (some (InteractionState.rebuildFrom
      ((factsOf w.broker (logSubjectFor t i)).map Fact.event)
      (lastSeq (logSubjectFor t i) w.broker.stream) rt.maxResults))) w) :
    CalmlyServes max Q (Signaling.rebuild rt site t i >>= k) w := by
  have hgo : ∀ ch, calm max (.replay site (logSubjectFor t i)) ch = true → ch = .go :=
    fun _ => of_decide_eq_true
  exact perform_go hgo rfl h

theorem interPut {k : Nat → Program α} (h : st.results.hasRoom max = true →
      CalmlyServes max Q (k w.heap.length) (w.alloc r key st)) :
    CalmlyServes max Q (Signaling.interPut r key st >>= k) w := by
  refine serves_perform fun ch hch => ?_
  rcases Bool.and_eq_true_iff.1 hch with ⟨hgo, hroom⟩
  rw [of_decide_eq_true hgo]
  exact ⟨_, _, rfl, h hroom⟩

theorem unlock {cell : Cell} (hcell : w.heap[o]? = some cell)
    (h : st.results.hasRoom max = true → CalmlyServes max Q (k ())
      { w with heap := w.heap.set o { cell with st := st, locked := false } }) :
    CalmlyServes max Q (Signaling.unlock o st >>= k) w := by
  have hunlock : w.unlockCell o st =
      some ((), { w with heap := w.heap.set o { cell with st := st, locked := false } }) := by
    simp [World.unlockCell, hcell]
  refine serves_perform fun ch hch => ?_
  rcases Bool.and_eq_true_iff.1 hch with ⟨hgo, hroom⟩
  rw [of_decide_eq_true hgo]
  exact ⟨(), _, hunlock, h hroom⟩

theorem append {author : Author} {ev : Event} {id : String} {expected : Nat}
    {k : Except AppendError (Bool × Nat) → Program α} (hnone : w.broker.window.lookup id = none)
    (hlast : lastSeq subject w.broker.stream = expected)
    (h : CalmlyServes max Q (k (.ok (false, w.broker.stream.length + 1)))
      { w with broker := w.broker.commit ⟨subject, id, ⟨author, ev⟩⟩ }) :
    CalmlyServes max Q (Signaling.append author subject ev id expected >>= k) w := by
  have happend : ∀ ch, (ch = .go ∨ ch = .dedupFirst) →
      performAppend w ⟨subject, id, ⟨author, ev⟩⟩ expected ch =
        some (.ok (false, w.broker.stream.length + 1),
          { w with broker := w.broker.commit ⟨subject, id, ⟨author, ev⟩⟩ }) := by
    have hoffer : ∀ first, w.broker.offer first ⟨subject, id, ⟨author, ev⟩⟩ expected =
        (.ok false (w.broker.stream.length + 1), w.broker.commit ⟨subject, id, ⟨author, ev⟩⟩) :=
      fun first => Broker.offer_of_fresh hnone hlast
    rintro ch (rfl | rfl)
    all_goals simp only [performAppend, hoffer, answer]
  refine serves_perform fun ch hch => ?_
  have hch : ch = .go ∨ ch = .dedupFirst :=
    (Bool.or_eq_true_iff.1 hch).imp of_decide_eq_true of_decide_eq_true
  exact ⟨_, _, happend ch hch, h⟩

end Operations

end CalmlyServes

/-! ## Tokens -/

section Tokens

variable {st : InteractionState} {n m max : Nat}

theorem Ordinary.gates_withToken (c : Ordinary) : c.gates max (st.withToken n) =
    (c.gates max st).map fun out => (out.1, out.2.withToken n) := by
  have hpart : (st.withToken n).part = st.part := rfl
  have hstatus : (st.withToken n).status = st.status := rfl
  simp only [gates, hpart, hstatus]
  split
  · rfl
  · split
    · rfl
    · rfl

theorem Ordinary.precheck_withToken (c : Ordinary) : c.precheck max (st.withToken n) =
    (c.precheck max st).map fun out => (out.1, out.2.withToken n) := by
  have hl : (st.withToken n).results.lookup c.cmd.commandId = st.results.lookup c.cmd.commandId := rfl
  simp only [precheck, hl, c.gates_withToken]
  split
  · split
    · rfl
    · split
      · rfl
      · split
        · rfl
        · rfl
  · rfl

end Tokens

/-! ## The relation -/

def Idle (w : World) (o : Nat) : Prop :=
  ∃ cell, w.heap[o]? = some cell ∧ cell.locked = false

section Relation

variable (r : Router) (t i : String)

structure Shows (w : World) (x : Interaction) : Prop where
  sound : Sound w.broker
  grounded : w.load r.id (stateKey t i) = none
  facts : (factsOf w.broker (logSubjectFor t i)).map (fun f => f.event.anonymous) = x.log
  inv : x.Inv r.maxResults
  absent : x.cached = none → w.inter r.id (stateKey t i) = none

def World.token (w : World) : Nat :=
  lastSeq (logSubjectFor t i) w.broker.stream

structure Refines (w : World) (x : Interaction) : Prop extends Shows r t i w x where
  present : ∀ st, x.cached = some st → st.results.hasRoom r.maxResults = true ∧
    ∃ o, w.inter r.id (stateKey t i) = some o ∧
      w.heap[o]? = some ⟨stateKey t i, st.withToken (w.token t i), false⟩

/-- Since `w₀` a call has held the object `o`; when it writes `st` back the world shows `x`. -/
structure Locked (w₀ w : World) (o : Nat) (x : Interaction) (st : InteractionState) : Prop
    extends Shows r t i w x where
  present : ∀ s, x.cached = some s →
    w.inter r.id (stateKey t i) = some o ∧ st = s.withToken (w.token t i)
  pointer : w₀.inter r.id (stateKey t i) = some o
  cell : ∃ cell, w.heap[o]? = some cell ∧ cell.key = stateKey t i
  others : ∀ o' ≠ o, w.heap[o']? = w₀.heap[o']?

/-- No object is left locked, and the cache entry is the old one, if it is there at all. -/
structure Follows (w w' : World) : Prop where
  idle : ∀ o, Idle w o → Idle w' o
  pointer : ∀ o, w.inter r.id (stateKey t i) = some o →
    w'.inter r.id (stateKey t i) = some o ∨ w'.inter r.id (stateKey t i) = none

variable {r t i} {w w₀ : World} {x : Interaction} {o : Nat} {st s : InteractionState} {α : Type}
variable {Q : α → World → Prop}

theorem Refines.cached_none (h : Refines r t i w x)
    (hnone : w.inter r.id (stateKey t i) = none) : x.cached = none := by
  cases hc : x.cached with
  | none => rfl
  | some st =>
    rcases h.present st hc with ⟨_, o, ho, _⟩
    rw [hnone] at ho
    cases ho

theorem Refines.exists_cached (h : Refines r t i w x)
    (ho : w.inter r.id (stateKey t i) = some o) : ∃ st, x.cached = some st := by
  cases hc : x.cached with
  | none =>
    rw [h.absent hc] at ho
    cases ho
  | some st => exact ⟨st, rfl⟩

theorem Refines.idle (h : Refines r t i w x) (ho : w.inter r.id (stateKey t i) = some o) :
    Idle w o := by
  rcases h.exists_cached ho with ⟨st, hst⟩
  rcases h.present st hst with ⟨_, o', ho', hcell⟩
  cases ho.symm.trans ho'
  exact ⟨_, hcell, rfl⟩

theorem refines_start : Refines r t i World.start Interaction.start where
  sound := Sound.empty
  grounded := rfl
  facts := rfl
  inv := Interaction.inv_start
  absent := fun _ => rfl
  present := by simp [Interaction.start]

theorem Shows.rebuildFrom (h : Shows r t i w x) :
    InteractionState.rebuildFrom ((factsOf w.broker (logSubjectFor t i)).map Fact.event)
        (w.token t i) r.maxResults =
      (InteractionState.rebuildFrom x.log 0 r.maxResults).withToken (w.token t i) := by
  have hlog : ((factsOf w.broker (logSubjectFor t i)).map Fact.event).map Event.anonymous = x.log := by
    rw [List.map_map]
    exact h.facts
  calc
    _ = InteractionState.rebuildFrom x.log (w.token t i) r.maxResults := by
          rw [← hlog, InteractionState.rebuildFrom_anonymous]
    _ = _ := InteractionState.rebuildFrom_withToken _ _ _

/-! ### Opening the state -/

variable (r t i) in
/-- The world `w'` is `w` with the state of the interaction in the cache, at `o`. -/
structure Opened (w w' : World) (x : Interaction) (o : Nat) : Prop where
  refines : Refines r t i w' (x.opened r.maxResults)
  pointer : w'.inter r.id (stateKey t i) = some o
  same : ∀ o', w.inter r.id (stateKey t i) = some o' → o' = o
  idle : ∀ o', Idle w o' → Idle w' o'

theorem Refines.opened_cached (h : Refines r t i w x) (ho : w.inter r.id (stateKey t i) = some o) :
    Opened r t i w w x o where
  refines := by
    rcases h.exists_cached ho with ⟨st, hst⟩
    rw [Interaction.opened_of_cached _ hst]
    exact h
  pointer := ho
  same := fun o' ho' => Option.some.inj (ho'.symm.trans ho)
  idle := fun _ => id

def World.loaded (w : World) (r : Nat) (key : String) (st : InteractionState) : World :=
  ((w.takeOff r key).alloc r key st).land r key w.flights.length (some w.heap.length)

theorem Refines.opened_loaded (h : Refines r t i w x) (hnone : w.inter r.id (stateKey t i) = none)
    (hst : st = (InteractionState.rebuildFrom x.log 0 r.maxResults).withToken (w.token t i))
    (hroom : st.results.hasRoom r.maxResults = true) :
    Opened r t i w (w.loaded r.id (stateKey t i) st) x w.heap.length where
  refines := by
    have hcached := h.cached_none hnone
    refine ⟨⟨h.sound, ?_, h.facts, h.inv.opened, ?_⟩, ?_⟩
    · simp [World.loaded, World.land, World.alloc, World.takeOff, setAt]
    · simp [Interaction.opened]
    · intro s hs
      have hs : s = InteractionState.rebuildFrom x.log 0 r.maxResults := by
        simpa [Interaction.opened, Interaction.state, hcached] using hs.symm
      subst hs
      rw [hst] at hroom
      refine ⟨hroom, w.heap.length, ?_, ?_⟩
      · simp [World.loaded, World.land, World.alloc, World.takeOff, setAt]
      · rw [hst]
        simp [World.loaded, World.land, World.alloc, World.takeOff, World.token]
  pointer := by simp [World.loaded, World.land, World.alloc, World.takeOff, setAt]
  same := by simp [hnone]
  idle := by
    rintro o' ⟨cell, hcell, hfree⟩
    have hlt : o' < w.heap.length := (List.getElem?_eq_some_iff.1 hcell).1
    exact ⟨cell, by simpa [World.loaded, World.land, World.alloc, World.takeOff,
      List.getElem?_append_left hlt] using hcell, hfree⟩

theorem serves_getState {k : Option Nat → Program α} (h : Refines r t i w x)
    (hk : ∀ o w', Opened r t i w w' x o → CalmlyServes r.maxResults Q (k (some o)) w') :
    CalmlyServes r.maxResults Q (getState r t i >>= k) w := by
  refine serves_bind ?_
  refine CalmlyServes.interGet ?_
  cases hinter : w.inter r.id (stateKey t i) with
  | some o => exact hk o w (h.opened_cached hinter)
  | none =>
    refine CalmlyServes.loadJoin h.grounded ?_
    refine serves_bind ?_
    refine CalmlyServes.interGet ?_
    have hinter' : (w.takeOff r.id (stateKey t i)).inter r.id (stateKey t i) = none := hinter
    rw [hinter']
    refine CalmlyServes.rebuild (CalmlyServes.interPut fun hroom => ?_)
    refine CalmlyServes.loadDone ?_
    exact hk _ _ (h.opened_loaded hinter h.rebuildFrom hroom)

theorem Opened.follows {w₁ w₂ : World} (h : Opened r t i w w₁ x o) (h' : Follows r t i w₁ w₂) :
    Follows r t i w w₂ where
  idle := fun o' ho' => h'.idle o' (h.idle o' ho')
  pointer := by
    intro o' ho'
    rw [h.same o' ho']
    exact h'.pointer o h.pointer

/-! ### Holding the state -/

variable {site : LockSite} {s' : InteractionState} {log : List Event}

theorem serves_lock {k : InteractionState → Program α} (h : Refines r t i w x)
    (hs : x.cached = some s) (ho : w.inter r.id (stateKey t i) = some o)
    (hk : ∀ w', Locked r t i w w' o x (s.withToken (w'.token t i)) →
      CalmlyServes r.maxResults Q (k (s.withToken (w'.token t i))) w') :
    CalmlyServes r.maxResults Q (lock site o >>= k) w := by
  rcases h.present s hs with ⟨_, o', ho', hcell⟩
  cases ho.symm.trans ho'
  have hlt : o < w.heap.length := (List.getElem?_eq_some_iff.1 hcell).1
  refine CalmlyServes.lock hcell rfl ?_
  refine hk { w with heap := w.heap.set o ⟨stateKey t i, s.withToken (w.token t i), true⟩ } ?_
  refine ⟨⟨h.sound, h.grounded, h.facts, h.inv, h.absent⟩, ?_, ho, ?_, ?_⟩
  · intro s' hs'
    cases hs.symm.trans hs'
    exact ⟨ho, rfl⟩
  · exact ⟨_, List.getElem?_set_self hlt, rfl⟩
  · intro o' hne
    simp [hne.symm]

theorem serves_unlock {k : Unit → Program α} (h : Locked r t i w₀ w o x st)
    (hk : ∀ w', Refines r t i w' x → Follows r t i w₀ w' → CalmlyServes r.maxResults Q (k ()) w') :
    CalmlyServes r.maxResults Q (unlock o st >>= k) w := by
  rcases h.cell with ⟨cell, hcell, hkey⟩
  have hlt : o < w.heap.length := (List.getElem?_eq_some_iff.1 hcell).1
  refine CalmlyServes.unlock hcell fun hroom => hk _ ?_ ?_
  · refine ⟨⟨h.sound, h.grounded, h.facts, h.inv, h.absent⟩, ?_⟩
    intro s hs
    rcases h.present s hs with ⟨ho, rfl⟩
    refine ⟨hroom, o, ho, ?_⟩
    simp [hlt, hkey, World.token]
  · refine ⟨?_, ?_⟩
    · rintro o' ⟨cell', hcell', hfree⟩
      by_cases hne : o' = o
      · subst hne
        exact ⟨_, List.getElem?_set_self hlt, rfl⟩
      · refine ⟨cell', ?_, hfree⟩
        rw [← h.others o' hne] at hcell'
        simpa [Ne.symm hne] using hcell'
    · intro o' ho'
      cases h.pointer.symm.trans ho'
      cases hc : x.cached with
      | none => exact .inr (h.absent hc)
      | some s => exact .inl (h.present s hc).1

theorem Shows.unknown {cid : String} (ht : DotFree t) (hi : DotFree i) (h : Shows r t i w x)
    (hfresh : ∀ e ∈ x.log, e.commandId ≠ cid) :
    w.broker.window.lookup (dedupID t i cid) = none := by
  cases hl : w.broker.window.lookup (dedupID t i cid) with
  | none => rfl
  | some n =>
    rcases h.sound.original ht hi hl with ⟨m, _, hget, hsub, hcid⟩
    have hmem : m.payload.event.anonymous ∈ x.log := by
      rw [← h.facts]
      exact List.mem_map.2 ⟨m.payload, List.mem_map.2
        ⟨m, mem_log.2 ⟨List.mem_of_getElem? hget, hsub⟩, rfl⟩, rfl⟩
    exact (hfresh _ hmem hcid).elim

theorem Locked.commit {m : Msg String String Fact} (h : Locked r t i w₀ w o x st)
    (hs : x.cached = some s) (hm : Minted m) (hsub : m.subject = logSubjectFor t i)
    (hlog : x.log ++ [m.payload.event.anonymous] = log)
    (hinv : (Interaction.mk (some s') log).Inv r.maxResults) :
    Locked r t i w₀ { w with broker := w.broker.commit m } o ⟨some s', log⟩
      (s'.withToken (w.broker.stream.length + 1)) := by
  refine ⟨⟨h.sound.commit hm, h.grounded, ?_, hinv, by simp⟩, ?_, h.pointer, h.cell, h.others⟩
  · have hfacts := congrArg (List.map fun f : Fact => f.event.anonymous)
      (factsOf_commit_self (b := w.broker) (m := m))
    rw [hsub, List.map_append, h.facts] at hfacts
    exact hfacts.trans hlog
  · intro s'' hs''
    cases hs''
    have htoken : World.token t i { w with broker := w.broker.commit m } =
        w.broker.stream.length + 1 := lastSeq_concat_self hsub
    exact ⟨(h.present s hs).1, by rw [htoken]⟩

theorem serves_settle {ended : Prop} [Decidable ended] {res : CommandResult}
    (h : Locked r t i w₀ w o ⟨some s', log⟩ st) :
    CalmlyServes r.maxResults
      (fun out w' => out.1 = res ∧
        Locked r t i w₀ w' o ⟨if ended then none else some s', log⟩ out.2)
      (evictWhen r t i ended >>= fun _ => pure (res, st)) w := by
  by_cases hended : ended
  · have hevict : evictWhen r t i ended = evict r t i := if_pos (decide_eq_true hended)
    rw [hevict, if_pos hended]
    refine CalmlyServes.interDelete ⟨rfl, ?_⟩
    refine ⟨⟨h.sound, h.grounded, h.facts, ⟨h.inv.ids, by simp⟩, fun _ => ?_⟩, by simp, h.pointer,
      h.cell, h.others⟩
    simp [setAt]
  · have hstay : evictWhen r t i ended = pure () := by simp [evictWhen, hended]
    rw [hstay, if_neg hended]
    exact ⟨rfl, h⟩

theorem serves_locked {id : String} {y : CommandResult × Interaction} {loop : Attempt}
    (h : Refines r t i w x) (hloop : ∀ w₀ w' o, Locked r t i w₀ w' o (x.opened r.maxResults)
        ((x.state r.maxResults).withToken (w'.token t i)) →
      (x.state r.maxResults).results.hasRoom r.maxResults = true →
      CalmlyServes r.maxResults (fun out w'' => out.1 = y.1 ∧ Locked r t i w₀ w'' o y.2 out.2)
        (loop ((x.state r.maxResults).withToken (w'.token t i))) w') :
    CalmlyServes r.maxResults
      (fun res w' => res = y.1 ∧ Refines r t i w' y.2 ∧ Follows r t i w w')
      (locked r site t i id loop) w := by
  refine serves_getState h fun o w₁ hopen => ?_
  refine serves_lock hopen.refines rfl hopen.pointer fun w₂ hw₂ => ?_
  have hsane : ((x.state r.maxResults).withToken (w₂.token t i)).poisoned = false :=
    (hopen.refines.inv.agrees _ rfl).unpoisoned
  rw [if_neg (by simp [hsane])]
  refine serves_bind ((hloop w₁ w₂ o hw₂ (hopen.refines.present _ rfl).1).mono fun out w₃ hout => ?_)
  refine serves_unlock hout.2 fun w₄ hw₄ hfollows => ?_
  exact ⟨hout.1, hw₄, hopen.follows hfollows⟩

end Relation

/-! ## Ordinary commands -/

section Ordinary

variable {r : Router} {c : Ordinary} {w w₀ : World} {x : Interaction} {o : Nat}
variable {s : InteractionState}

theorem serves_attempt {retry : Option Attempt}
    (h : Locked r c.tenant c.iid w₀ w o x (s.withToken (w.token c.tenant c.iid)))
    (hs : x.cached = some s) (hroom : s.results.hasRoom r.maxResults = true) :
    CalmlyServes r.maxResults
      (fun out w' => out.1 = (x.serveOrdinary r.maxResults c).1 ∧
        Locked r c.tenant c.iid w₀ w' o (x.serveOrdinary r.maxResults c).2 out.2)
      (attempt r c retry (s.withToken (w.token c.tenant c.iid))) w := by
  have hinv := h.inv.serveOrdinary c
  have hagrees := h.inv.agrees s hs
  simp only [Interaction.serveOrdinary, Interaction.state_of_cached _ hs] at hinv ⊢
  unfold attempt
  rw [c.precheck_withToken]
  cases hpre : c.precheck r.maxResults s with
  | some out =>
    rw [hpre] at hinv
    refine ⟨rfl, ⟨h.sound, h.grounded, h.facts, hinv, by simp⟩, ?_, h.pointer, h.cell, h.others⟩
    rintro s' hs'
    cases hs'
    exact ⟨(h.present s hs).1, rfl⟩
  | none =>
    refine CalmlyServes.newID fun eventId => CalmlyServes.now fun at_ => ?_
    have hnone := h.toShows.unknown c.tenant_dotFree c.iid_dotFree (hagrees.fresh hroom hpre)
    refine CalmlyServes.append hnone rfl ?_
    exact serves_settle (h.commit hs (c.minted_message s eventId at_) rfl rfl
      (h.inv.concat c.commandId_ne (hagrees.onCommit "" 0 0)))

theorem serves_handleOrdinary (h : Refines r c.tenant c.iid w x) :
    CalmlyServes r.maxResults
      (fun res w' => res = (x.serveOrdinary r.maxResults c).1 ∧
        Refines r c.tenant c.iid w' (x.serveOrdinary r.maxResults c).2)
      (handleOrdinary r c) w := by
  refine Serves.mono (fun res w' hres => ⟨hres.1, hres.2.1⟩)
    (serves_locked h fun w₀ w₁ o hw₁ hroom => ?_)
  rw [← Interaction.serveOrdinary_opened]
  -- Nobody interferes, so the first attempt is the last one.
  cases r.maxRefold with
  | zero | succ left => exact serves_attempt hw₁ rfl hroom

end Ordinary

/-! ## Privileged commands -/

section Privileged

variable {r : Router} {p : Privileged} {f : PlannedFact} {w w₀ : World} {x : Interaction} {o : Nat}
variable {s : InteractionState}

theorem serves_attemptFact {retry : Option Attempt}
    (h : Locked r p.tenant p.iid w₀ w o x (s.withToken (w.token p.tenant p.iid)))
    (hs : x.cached = some s) (hroom : s.results.hasRoom r.maxResults = true) :
    CalmlyServes r.maxResults
      (fun out w' => out.1 = (x.serveFact r.maxResults p f).1 ∧
        Locked r p.tenant p.iid w₀ w' o (x.serveFact r.maxResults p f).2 out.2)
      (attemptFact r p f retry (s.withToken (w.token p.tenant p.iid))) w := by
  have hagrees := h.inv.agrees s hs
  have hcheck' : p.checkFact f (s.withToken (w.token p.tenant p.iid)) = p.checkFact f s := rfl
  simp only [Interaction.serveFact, Interaction.state_of_cached _ hs]
  unfold attemptFact
  rw [hcheck']
  cases hcheck : p.checkFact f s with
  | some res =>
    rcases x with ⟨_, log⟩
    cases hs
    exact serves_settle h
  | none =>
    refine CalmlyServes.newID fun eventId => CalmlyServes.now fun at_ => ?_
    have hnone := h.toShows.unknown p.tenant_dotFree p.iid_dotFree (hagrees.freshFact hroom hcheck)
    refine CalmlyServes.append hnone rfl ?_
    exact serves_settle (h.commit hs (p.minted_message f s eventId at_) rfl rfl
      (h.inv.concat (p.subID_ne_empty f) (hagrees.onAck "" 0 0)))

theorem serves_appendParticipationFact (h : Refines r p.tenant p.iid w x) :
    CalmlyServes r.maxResults
      (fun res w' => res = (x.serveFact r.maxResults p f).1 ∧
        Refines r p.tenant p.iid w' (x.serveFact r.maxResults p f).2 ∧
        Follows r p.tenant p.iid w w')
      (appendParticipationFact r p f) w := by
  refine serves_locked h fun w₀ w₁ o hw₁ hroom => ?_
  rw [← Interaction.serveFact_opened]
  cases r.maxRefold with
  | zero | succ left => exact serves_attemptFact hw₁ rfl hroom

/-- The object with which a privileged command started is still the cached one, or the interaction
has ended and is not cached. -/
structure Anchored (r : Router) (p : Privileged) (w : World) (x : Interaction) (o : Nat) : Prop where
  refines : Refines r p.tenant p.iid w x
  idle : Idle w o
  cached : w.inter r.id p.key = some o ∨ x.cached = none ∧ InteractionState.statusOf x.log = .ended

theorem Anchored.serveFact {w' : World} (h : Anchored r p w x o)
    (hacc : (x.serveFact r.maxResults p f).1.status = .accepted)
    (hw' : Refines r p.tenant p.iid w' (x.serveFact r.maxResults p f).2)
    (hfollows : Follows r p.tenant p.iid w w') :
    Anchored r p w' (x.serveFact r.maxResults p f).2 o where
  refines := hw'
  idle := hfollows.idle o h.idle
  cached := by
    have hdropped : (x.serveFact r.maxResults p f).2.cached = none →
        InteractionState.statusOf (x.serveFact r.maxResults p f).2.log = .ended :=
      h.refines.inv.status_of_dropped
    rcases h.cached with ho | ⟨_, hended⟩
    · rcases hfollows.pointer o ho with ho' | hnone
      · exact .inl ho'
      · have hc := hw'.cached_none hnone
        exact .inr ⟨hc, hdropped hc⟩
    · have hc := h.refines.inv.dropped_of_status hacc hended
      exact .inr ⟨hc, hdropped hc⟩

theorem serves_appendFacts {facts : List PlannedFact} : ∀ {later : Bool} {x : Interaction} {w : World},
    Anchored r p w x o → CalmlyServes r.maxResults
      (fun out w' => out = (Interaction.serveFacts r.maxResults p later facts x).1 ∧
        Refines r p.tenant p.iid w' (Interaction.serveFacts r.maxResults p later facts x).2 ∧
        (out = none → Anchored r p w' (Interaction.serveFacts r.maxResults p later facts x).2 o))
      (appendFacts r p later facts) w := by
  induction facts with
  | nil =>
    intro later x w h
    exact ⟨rfl, h.refines, fun _ => h⟩
  | cons f rest ih =>
    intro later x w h
    refine serves_bind ((serves_appendParticipationFact h.refines).mono ?_)
    rintro res w' ⟨rfl, hw', hfollows⟩
    simp only [Interaction.serveFacts]
    split
    · exact ⟨rfl, hw', by simp⟩
    · next hacc => exact ih (h.serveFact (not_not.1 hacc) hw' hfollows)

theorem serves_bindSubs (h : Anchored r p w x o) :
    CalmlyServes r.maxResults
      (fun res w' => res = accepted p.cmd.commandId ∧
        Refines r p.tenant p.iid w' { x with cached := x.cached.map p.bindSubs })
      (do
        let st ← lock (.bind p) o
        unlock o (p.bindSubs st)
        return accepted p.cmd.commandId) w := by
  rcases h.cached with ho | ⟨hnone, _⟩
  · rcases h.refines.exists_cached ho with ⟨s, hs⟩
    rw [hs]
    refine serves_lock h.refines hs ho fun w₁ hw₁ => ?_
    have hbound : Locked r p.tenant p.iid w w₁ o { x with cached := some (p.bindSubs s) }
        (p.bindSubs (s.withToken (w₁.token p.tenant p.iid))) := by
      refine ⟨⟨hw₁.sound, hw₁.grounded, hw₁.facts, ⟨hw₁.inv.ids, ?_⟩, by simp⟩, ?_, hw₁.pointer,
        hw₁.cell, hw₁.others⟩
      · rintro st hst
        cases hst
        exact (hw₁.inv.agrees s hs).bindSubs
      · rintro st hst
        cases hst
        exact ⟨(hw₁.present s hs).1, rfl⟩
    exact serves_unlock hbound fun w₂ hw₂ _ => ⟨rfl, hw₂⟩
  · -- The object has left the cache: nobody will look at it again.
    rcases h.idle with ⟨cell, hcell, hfree⟩
    have hlt : o < w.heap.length := (List.getElem?_eq_some_iff.1 hcell).1
    refine CalmlyServes.lock hcell hfree ?_
    refine CalmlyServes.unlock (List.getElem?_set_self hlt) fun _ => ⟨rfl, ?_⟩
    have hx := h.refines
    refine ⟨⟨hx.sound, hx.grounded, hx.facts, ⟨hx.inv.ids, ?_⟩, fun _ => hx.absent hnone⟩, ?_⟩
    all_goals simp [hnone]

theorem serves_handlePrivileged (h : Refines r p.tenant p.iid w x) :
    CalmlyServes r.maxResults
      (fun res w' => res = (x.servePrivileged r.maxResults p).1 ∧
        Refines r p.tenant p.iid w' (x.servePrivileged r.maxResults p).2)
      (handlePrivileged r p) w := by
  refine serves_getState h fun o w₁ hopen => ?_
  refine serves_lock hopen.refines rfl hopen.pointer fun w₂ hw₂ => ?_
  refine serves_unlock hw₂ fun w₃ hw₃ hfollows => ?_
  have hdiv : p.diverges ((x.state r.maxResults).withToken (w₂.token p.tenant p.iid)) =
      p.diverges (x.state r.maxResults) := rfl
  simp only [Interaction.servePrivileged]
  rw [hdiv]
  split
  · exact ⟨rfl, hw₃⟩
  · have hanchored : Anchored r p w₃ (x.opened r.maxResults) o := by
      refine ⟨hw₃, hfollows.idle o (hopen.refines.idle hopen.pointer), ?_⟩
      rcases hfollows.pointer o hopen.pointer with ho | hnone
      · exact .inl ho
      · cases hw₃.cached_none hnone
    refine serves_bind ((serves_appendFacts hanchored).mono ?_)
    rintro out w₄ ⟨hout, hw₄, hbind⟩
    rcases hserved : Interaction.serveFacts r.maxResults p false p.facts (x.opened r.maxResults) with
      ⟨served, y⟩
    rw [hserved] at hout hw₄ hbind
    cases hout
    cases served with
    | some failed => exact ⟨rfl, hw₄⟩
    | none => exact serves_bindSubs (hbind rfl)

end Privileged

/-! ## Calls -/

theorem serves_handleCommand {call : Call} {t i suffix : String} {w : World} {x : Interaction}
    (hnamed : parseCmdSubject call.subject = some (t, i, suffix))
    (h : Refines call.router t i w x) :
    CalmlyServes call.router.maxResults
      (fun res w' => res = (x.serve call.router.maxResults call).1 ∧
        Refines call.router t i w' (x.serve call.router.maxResults call).2)
      (handleCommand call) w := by
  unfold handleCommand Interaction.serve
  cases hrequest : call.request with
  | refuse res => exact serves_pure ⟨rfl, h⟩
  | ordinary c =>
    rcases Call.ordinary_names hnamed hrequest with ⟨rfl, rfl, _⟩
    exact serves_handleOrdinary h
  | privileged p =>
    rcases Call.privileged_names hnamed hrequest with ⟨rfl, rfl, _⟩
    exact serves_handlePrivileged h

end RelayPoint.Signaling
