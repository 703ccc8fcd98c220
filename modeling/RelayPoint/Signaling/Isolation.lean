import RelayPoint.Signaling.Coherence
import RelayPoint.Signaling.Footprint
import RelayPoint.Signaling.Refinement

/-!
# Isolation — interactions that share a router but no key

A router keeps its interactions apart by a string built from the tenant and the interaction id.  Two
pairs with one key share a cached state; two pairs with different keys share nothing that a call reads
back.  So in a serial run the replies and the facts of an interaction are those of the sequential
machine `Interaction` on its own calls, whatever the other calls are.
-/

namespace RelayPoint.Signaling

open Concurrency Journal

/-! ## Keys -/

/-- Where the longer of two colliding keys could be cut, one of the parts has no slash. -/
def Separate (t i t' i' : String) : Prop :=
  ('/' ∉ t'.toList ∨ '/' ∉ i.toList) ∧ ('/' ∉ t.toList ∨ '/' ∉ i'.toList)

theorem separate_of_slashless {t i : String} (ht : '/' ∉ t.toList) (hi : '/' ∉ i.toList)
    (t' i' : String) : Separate t i t' i' :=
  ⟨.inr hi, .inl ht⟩

theorem eq_or_mem_of_append_cons_eq {α : Type} {x : α} {a b a' b' : List α}
    (h : a ++ x :: b = a' ++ x :: b') :
    (a = a' ∧ b = b') ∨ (x ∈ a' ∧ x ∈ b) ∨ (x ∈ a ∧ x ∈ b') := by
  rcases List.append_eq_append_iff.1 h with ⟨c, rfl, hc⟩ | ⟨c, rfl, hc⟩
  · cases c with
    | nil => exact .inl ⟨by simp, by simpa using hc⟩
    | cons y c =>
      rcases List.cons.inj hc with ⟨rfl, rfl⟩
      exact .inr (.inl ⟨by simp, by simp⟩)
  · cases c with
    | nil => exact .inl ⟨by simp, by simpa using hc.symm⟩
    | cons y c =>
      rcases List.cons.inj hc with ⟨rfl, rfl⟩
      exact .inr (.inr ⟨by simp, by simp⟩)

theorem stateKey_ne {t i t' i' : String} (hsep : Separate t i t' i') (hne : (t', i') ≠ (t, i)) :
    stateKey t' i' ≠ stateKey t i := by
  intro h
  have hlist : t'.toList ++ '/' :: i'.toList = t.toList ++ '/' :: i.toList := by
    simpa [stateKey] using congrArg String.toList h
  rcases eq_or_mem_of_append_cons_eq hlist with ⟨ht, hi⟩ | ⟨ht, hi⟩ | ⟨ht, hi⟩
  · exact hne (by rw [String.toList_inj.1 ht, String.toList_inj.1 hi])
  · exact hsep.2.elim (absurd ht) (absurd hi)
  · exact hsep.1.elim (absurd ht) (absurd hi)

/-! ## Typed pointers -/

def loose : Coherence where
  LostAck _ _ := True
  Duplicate _ _ _ := True
  G _ := True
  P _ _ := True
  nil := trivial
  rebuilt := fun _ => trivial
  commit := fun _ _ _ _ _ _ => ⟨trivial, trivial⟩
  commitFact := fun _ _ _ _ _ _ => ⟨trivial, trivial⟩
  lostAck := fun _ _ _ => trivial
  duplicate := fun _ _ _ _ _ _ _ _ _ => trivial

/-- The store is well formed; entries of the caches and flights lead to states of their key. -/
abbrev Typed (w : World) : Prop :=
  loose.outline.WorldInv w

theorem loose_ok (b₀ : LogStore) (w : World) (op : Op) (ch : Choice) : loose.outline.ok b₀ w op ch := by
  cases op with
  | append author subject ev id expected => exact fun _ _ _ => trivial
  | replay site subject =>
    cases site with
    | lostAck max st c => exact fun _ => trivial
    | _ => trivial
  | _ => trivial

def execCalmly (max : Nat) (call : Call) (choices : List Choice) (w : World) :
    Option (CommandResult × World) :=
  exec machine (fun _ op ch => calm max op ch = true) choices (handleCommand call) w

theorem ens_loose (call : Call) (w : World) :
    loose.outline.Ens w.broker (fun res w' => loose.outline.Answered call w.broker w'.broker res)
      (handleCommand call) w :=
  Outline.ens_handleCommand call.meets_trivial

theorem Typed.execCalmly {max : Nat} {call : Call} {choices : List Choice} {w w' : World}
    {res : CommandResult} (h : Typed w)
    (hrun : Signaling.execCalmly max call choices w = some (res, w')) : Typed w' :=
  ((ens_loose call w).exec (fun w op ch _ => loose_ok _ w op ch) h hrun).1

/-! ## What belongs to an interaction -/

structure Untouched (r : Nat) (t i : String) (w₀ w : World) : Prop where
  inter : w.inter r (stateKey t i) = w₀.inter r (stateKey t i)
  load : w.load r (stateKey t i) = w₀.load r (stateKey t i)
  cells : ∀ (o : Nat) (cell : Cell), cell.key = stateKey t i →
    (w.heap[o]? = some cell ↔ w₀.heap[o]? = some cell)
  flights : ∀ (f : Nat) (res : Option (Option Nat)),
    w.flights[f]? = some (stateKey t i, res) ↔ w₀.flights[f]? = some (stateKey t i, res)
  facts : factsOf w.broker (logSubjectFor t i) = factsOf w₀.broker (logSubjectFor t i)
  last : lastSeq (logSubjectFor t i) w.broker.stream = lastSeq (logSubjectFor t i) w₀.broker.stream

section Frame

variable {r : Nat} {t i t' i' : String} {w₀ w w' : World}

theorem Untouched.refl (w : World) : Untouched r t i w w where
  inter := rfl
  load := rfl
  cells := fun _ _ _ => Iff.rfl
  flights := fun _ _ => Iff.rfl
  facts := rfl
  last := rfl

variable {o f : Nat} {key key' : String}

theorem Untouched.points (h : Untouched r t i w₀ w) :
    Points w o (stateKey t i) ↔ Points w₀ o (stateKey t i) := by
  constructor
  · rintro ⟨cell, hcell, hkey⟩
    exact ⟨cell, (h.cells o cell hkey).1 hcell, hkey⟩
  · rintro ⟨cell, hcell, hkey⟩
    exact ⟨cell, (h.cells o cell hkey).2 hcell, hkey⟩

theorem Untouched.flies (h : Untouched r t i w₀ w) :
    Flies w f (stateKey t i) ↔ Flies w₀ f (stateKey t i) :=
  exists_congr fun res => h.flights f res

theorem Points.unique (h : Points w o key) (h' : Points w o key') : key = key' := by
  rcases h with ⟨cell, hcell, rfl⟩
  rcases h' with ⟨cell', hcell', rfl⟩
  cases hcell.symm.trans hcell'
  rfl

theorem Flies.unique (h : Flies w f key) (h' : Flies w f key') : key = key' := by
  rcases h with ⟨res, hres⟩
  rcases h' with ⟨res', hres'⟩
  cases hres.symm.trans hres'
  rfl

def aside (r : Nat) (t i t' i' : String) (w₀ : World) : Scope where
  router := r
  tenant := t'
  iid := i'
  event _ := True
  object o := ¬ Points w₀ o (stateKey t i)
  flight f := ¬ Flies w₀ f (stateKey t i)

theorem setAt_other {β : Type} {g : Nat → String → Option β} {r' : Nat} {v : Option β}
    (h : key' ≠ key) : setAt g r key v r' key' = g r' key' := by
  simp [setAt, h]

theorem Untouched.set (h : Untouched r t i w₀ w) {cell cell' : Cell}
    (ho : ¬ Points w₀ o (stateKey t i)) (hcell : w.heap[o]? = some cell)
    (hkey : cell'.key = cell.key) :
    Untouched r t i w₀ { w with heap := w.heap.set o cell' } where
  inter := h.inter
  load := h.load
  cells := by
    intro o' c hc
    refine Iff.trans ?_ (h.cells o' c hc)
    by_cases heq : o = o'
    · subst heq
      have hlt : o < w.heap.length := (List.getElem?_eq_some_iff.1 hcell).1
      have hforeign : cell.key ≠ stateKey t i := fun hk => ho (h.points.1 ⟨cell, hcell, hk⟩)
      constructor
      · intro hset
        have : cell' = c := by simpa [hlt] using hset
        exact absurd (hkey.symm.trans (this ▸ hc)) hforeign
      · intro hold
        cases hcell.symm.trans hold
        exact absurd hc hforeign
    · simp [heq]
  flights := h.flights
  facts := h.facts
  last := h.last

theorem Untouched.alloc (h : Untouched r t i w₀ w) {st : InteractionState}
    (hkey : key ≠ stateKey t i) : Untouched r t i w₀ (w.alloc r key st) where
  inter := (setAt_other hkey.symm).trans h.inter
  load := h.load
  cells := by
    intro o c hc
    refine Iff.trans ?_ (h.cells o c hc)
    by_cases hlt : o < w.heap.length
    · simp [World.alloc, List.getElem?_append_left hlt]
    · have hnone : w.heap[o]? = none := List.getElem?_eq_none (Nat.le_of_not_lt hlt)
      simp only [World.alloc, List.getElem?_append_right (Nat.le_of_not_lt hlt), hnone]
      constructor
      · intro hnew
        have hmem := List.mem_of_getElem? hnew
        rw [List.mem_singleton.1 hmem] at hc
        exact absurd hc hkey
      · intro hold
        cases hold
  flights := h.flights
  facts := h.facts
  last := h.last

theorem Untouched.takeOff (h : Untouched r t i w₀ w) (hkey : key ≠ stateKey t i) :
    Untouched r t i w₀ (w.takeOff r key) where
  inter := h.inter
  load := (setAt_other hkey.symm).trans h.load
  cells := h.cells
  flights := by
    intro f res
    refine Iff.trans ?_ (h.flights f res)
    by_cases hlt : f < w.flights.length
    · simp [World.takeOff, List.getElem?_append_left hlt]
    · have hnone : w.flights[f]? = none := List.getElem?_eq_none (Nat.le_of_not_lt hlt)
      simp only [World.takeOff, List.getElem?_append_right (Nat.le_of_not_lt hlt), hnone]
      constructor
      · intro hnew
        cases List.mem_singleton.1 (List.mem_of_getElem? hnew)
        exact absurd rfl hkey
      · intro hold
        cases hold
  facts := h.facts
  last := h.last

theorem Untouched.land (h : Untouched r t i w₀ w) {res : Option Nat} (hkey : key ≠ stateKey t i)
    (hf : ¬ Flies w₀ f (stateKey t i)) :
    Untouched r t i w₀ (w.land r key f res) where
  inter := h.inter
  load := by
    refine Eq.trans ?_ h.load
    simp only [World.land]
    split
    · exact setAt_other hkey.symm
    · rfl
  cells := h.cells
  flights := by
    intro f' res'
    refine Iff.trans ?_ (h.flights f' res')
    by_cases heq : f = f'
    · subst heq
      constructor
      · intro hset
        simp only [World.land, List.getElem?_set_self'] at hset
        rcases Option.map_eq_some_iff.1 hset with ⟨_, _, hnew⟩
        exact absurd (Prod.mk.inj hnew).1 hkey
      · intro hold
        exact absurd (h.flies.1 ⟨res', hold⟩) hf
    · simp [World.land, heq]
  facts := h.facts
  last := h.last

theorem Untouched.commit (h : Untouched r t i w₀ w) {m : Msg String String Fact}
    (hsub : m.subject ≠ logSubjectFor t i) :
    Untouched r t i w₀ { w with broker := w.broker.commit m } where
  inter := h.inter
  load := h.load
  cells := h.cells
  flights := h.flights
  facts := (factsOf_commit_other hsub).trans h.facts
  last := (lastSeq_concat_other hsub).trans h.last

theorem Untouched.perform {op : Op} {ch : Choice} {a : Ans op} (hkey : stateKey t' i' ≠ stateKey t i)
    (hsub : logSubjectFor t' i' ≠ logSubjectFor t i) (htyped : Typed w) (h : Untouched r t i w₀ w)
    (hop : (aside r t i t' i' w₀).Allows op) (hp : machine.perform w op ch = some (a, w')) :
    (aside r t i t' i' w₀).Answers op a ∧ Untouched r t i w₀ w' := by
  have hforeign : ∀ {o key}, key ≠ stateKey t i → Points w o key → ¬ Points w₀ o (stateKey t i) :=
    fun hne hpoints hp => hne (hpoints.unique (h.points.2 hp))
  have hforeign' : ∀ {f key}, key ≠ stateKey t i → Flies w f key → ¬ Flies w₀ f (stateKey t i) :=
    fun hne hflies hf => hne (hflies.unique (h.flies.2 hf))
  have heffect := perform_effect hp
  cases op with
  | append author subject ev id expected =>
    refine ⟨trivial, ?_⟩
    rcases heffect with rfl | rfl
    · exact h
    · exact h.commit (hop.1.trans_ne hsub)
  | replay site subject | now | newID => exact ⟨trivial, heffect ▸ h⟩
  | interGet r' key' =>
    rcases hop with ⟨rfl, rfl⟩
    rcases heffect with ⟨rfl, rfl⟩
    exact ⟨fun o ho => hforeign hkey (htyped.inter ho), h⟩
  | interPut r' key' st =>
    rcases hop with ⟨rfl, rfl⟩
    rcases heffect with ⟨rfl, rfl⟩
    refine ⟨?_, h.alloc hkey⟩
    intro hp
    rcases h.points.2 hp with ⟨cell, hcell, _⟩
    simp at hcell
  | interDelete r' key' =>
    rcases hop with ⟨rfl, rfl⟩
    cases heffect
    exact ⟨trivial, (setAt_other hkey.symm).trans h.inter, h.load, h.cells, h.flights, h.facts,
      h.last⟩
  | loadJoin r' key' =>
    rcases hop with ⟨rfl, rfl⟩
    cases a with
    | join f =>
      rcases heffect with ⟨hload, rfl⟩
      exact ⟨hforeign' hkey (htyped.load hload), h⟩
    | lead f =>
      rcases heffect with ⟨_, rfl, rfl⟩
      refine ⟨?_, h.takeOff hkey⟩
      intro hf
      rcases h.flies.2 hf with ⟨res, hres⟩
      simp at hres
  | loadWait f =>
    rcases heffect with ⟨⟨key, hflight⟩, rfl⟩
    refine ⟨?_, h⟩
    rintro o rfl
    refine hforeign ?_ (htyped.flights hflight)
    rintro rfl
    exact hop (h.flies.1 ⟨_, hflight⟩)
  | loadDone r' key' f res =>
    rcases hop with ⟨rfl, rfl, hf, _⟩
    cases heffect
    exact ⟨trivial, h.land hkey hf⟩
  | lock site o =>
    rcases heffect with ⟨cell, hcell, _, _, rfl⟩
    exact ⟨trivial, h.set hop hcell rfl⟩
  | unlock o st =>
    rcases heffect with ⟨cell, hcell, rfl⟩
    exact ⟨trivial, h.set hop hcell rfl⟩

end Frame

section Frame

variable {r : Router} {t i : String} {w w' : World} {x : Interaction}

def Call.interaction (call : Call) : Option (String × String) :=
  (parseCmdSubject call.subject).map fun parts => (parts.1, parts.2.1)

theorem untouched_execCalmly {call : Call} {choices : List Choice} {res : CommandResult}
    (hr : call.router = r) (ht : DotFree t) (hi : DotFree i)
    (hother : ∀ t' i', call.interaction = some (t', i') → (t', i') ≠ (t, i) ∧ Separate t i t' i')
    (htyped : Typed w) (hrun : execCalmly r.maxResults call choices w = some (res, w')) :
    Untouched r.id t i w w' := by
  cases hparse : parseCmdSubject call.subject with
  | none =>
    rcases handleCommand_unnamed hparse with ⟨res', hpure⟩
    unfold execCalmly at hrun
    rw [hpure] at hrun
    cases choices with
    | nil =>
      cases hrun
      exact Untouched.refl w
    | cons ch choices => cases hrun
  | some parts =>
    rcases parts with ⟨t', i', suffix⟩
    rcases hother t' i' (by simp [Call.interaction, hparse]) with ⟨hne, hsep⟩
    have hkey := stateKey_ne hsep hne
    have hdots := parseCmdSubject_dotFree hparse
    have hsub : logSubjectFor t' i' ≠ logSubjectFor t i := by
      intro heq
      rcases logSubjectFor_injective hdots.1 hdots.2 ht hi heq with ⟨rfl, rfl⟩
      exact hne rfl
    have hwithin : (aside r.id t i t' i' w).Within (fun _ => True) (handleCommand call) :=
      Scope.within_handleCommand (by rw [hr]; rfl) hparse (fun _ _ _ _ _ _ => trivial)
        fun _ _ _ _ _ _ _ _ => trivial
    exact (exec_within (fun w op ch _ => loose_ok _ w op ch)
      (fun htyped hu hop hp => hu.perform hkey hsub htyped hop hp) (ens_loose call w) hwithin htyped
      (Untouched.refl w) hrun).2

theorem Refines.untouched (h : Refines r t i w x) (hu : Untouched r.id t i w w')
    (hsound : Sound w'.broker) : Refines r t i w' x where
  sound := hsound
  grounded := hu.load.trans h.grounded
  facts := by rw [hu.facts, h.facts]
  inv := h.inv
  absent := fun hnone => hu.inter.trans (h.absent hnone)
  present := by
    intro st hst
    rcases h.present st hst with ⟨hroom, o, ho, hcell⟩
    refine ⟨hroom, o, hu.inter.trans ho, ?_⟩
    rw [show w'.token t i = w.token t i from hu.last]
    exact (hu.cells o _ rfl).2 hcell

theorem Refines.forget (h : Refines r t i w x) (id : String) :
    Refines r t i { w with broker := w.broker.forget id } x where
  sound := h.sound.forget id
  grounded := h.grounded
  facts := h.facts
  inv := h.inv
  absent := h.absent
  present := h.present

end Frame

/-! ## Serial runs -/

/-- A router takes one call after the other; in between the broker may forget a message id. -/
inductive Turn where
  | command (call : Call) (choices : List Choice)
  | forget (id : String)

def Turn.call? : Turn → Option Call
  | .command call _ => some call
  | .forget _ => none

def callsOf (turns : List Turn) : List Call :=
  turns.filterMap Turn.call?

def serveTurns (r : Router) : List Turn → World → Option (List (Call × CommandResult) × World)
  | [], w => some ([], w)
  | .forget id :: turns, w => serveTurns r turns { w with broker := w.broker.forget id }
  | .command call choices :: turns, w =>
    if call.router = r then
      match execCalmly r.maxResults call choices w with
      | none => none
      | some (res, w') => (serveTurns r turns w').map fun out => ((call, res) :: out.1, out.2)
    else none

def Call.on (t i : String) (call : Call) : Bool :=
  call.interaction = some (t, i)

def Apart (t i : String) (calls : List Call) : Prop :=
  ∀ call ∈ calls, ∀ p ∈ call.interaction, p ≠ (t, i) → Separate t i p.1 p.2

section Runs

variable {r : Router} {t i : String}
variable {choices : List Choice} {x : Interaction} {res : CommandResult}

theorem Refines.own {call : Call} {w w' : World} (h : Refines call.router t i w x)
    (hon : call.on t i = true)
    (hrun : execCalmly call.router.maxResults call choices w = some (res, w')) :
    res = (x.serve call.router.maxResults call).1 ∧
      Refines call.router t i w' (x.serve call.router.maxResults call).2 := by
  rcases Option.map_eq_some_iff.1 (of_decide_eq_true hon) with ⟨⟨t', i', suffix⟩, hnamed, heq⟩
  cases heq
  exact (serves_handleCommand hnamed h).exec hrun

theorem Refines.other {call : Call} {w w' : World} (h : Refines call.router t i w x)
    (ht : DotFree t) (hi : DotFree i) (hon : call.on t i = false)
    (hapart : ∀ p ∈ call.interaction, p ≠ (t, i) → Separate t i p.1 p.2) (htyped : Typed w)
    (hrun : execCalmly call.router.maxResults call choices w = some (res, w')) :
    Refines call.router t i w' x := by
  refine h.untouched (untouched_execCalmly rfl ht hi ?_ htyped hrun) (htyped.execCalmly hrun).sound
  intro t' i' hp
  have hne : (t', i') ≠ (t, i) := by
    rintro heq
    rw [heq] at hp
    exact of_decide_eq_false hon hp
  exact ⟨hne, hapart (t', i') hp hne⟩

theorem serveTurns_refines (ht : DotFree t) (hi : DotFree i) {turns : List Turn} :
    ∀ {x : Interaction} {w w' : World} {out : List (Call × CommandResult)},
      Apart t i (callsOf turns) → Typed w → Refines r t i w x →
      serveTurns r turns w = some (out, w') →
      out.filter (fun reply => reply.1.on t i) =
          (x.serveAll r.maxResults ((callsOf turns).filter (Call.on t i))).1 ∧
        Refines r t i w' (x.serveAll r.maxResults ((callsOf turns).filter (Call.on t i))).2 := by
  induction turns with
  | nil =>
    intro x w w' out _ _ h hrun
    cases hrun
    exact ⟨rfl, h⟩
  | cons turn turns ih =>
    intro x w w' out hapart htyped h hrun
    cases turn with
    | forget id =>
      have htyped' : Typed { w with broker := w.broker.forget id } :=
        (Outline.tick_keeps (O := loose.outline) (t := .forget id) trivial htyped rfl).2
      exact ih hapart htyped' (h.forget id) hrun
    | command call choices =>
      have hcalls : callsOf (.command call choices :: turns) = call :: callsOf turns := rfl
      simp only [serveTurns] at hrun
      split at hrun
      · next hr =>
          subst hr
          split at hrun
          · cases hrun
          · next res w₁ hexec =>
              rcases Option.map_eq_some_iff.1 hrun with ⟨rest, hrest, heq⟩
              cases heq
              have hrest' : Apart t i (callsOf turns) := fun c hc => hapart c (by simp [hcalls, hc])
              have htyped₁ := htyped.execCalmly hexec
              rw [hcalls]
              cases hon : call.on t i with
              | true =>
                rcases h.own hon hexec with ⟨rfl, hw₁⟩
                rcases ih hrest' htyped₁ hw₁ hrest with ⟨hreplies, hw'⟩
                simp only [List.filter_cons, hon, if_true]
                exact ⟨congrArg _ hreplies, hw'⟩
              | false =>
                have hw₁ := h.other ht hi hon (hapart call (by simp [hcalls])) htyped hexec
                rcases ih hrest' htyped₁ hw₁ hrest with ⟨hreplies, hw'⟩
                simp only [List.filter_cons, hon]
                exact ⟨hreplies, hw'⟩
      · cases hrun

end Runs

end RelayPoint.Signaling
