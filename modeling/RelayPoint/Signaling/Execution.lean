import RelayPoint.Signaling.Footprint
import RelayPoint.Signaling.Outline

/-!
# Execution — symbolic execution of the router's programs under an outline

One rule for each operation of the machine, then one for each program, bottom up.  The rules are in
continuation style: what has to be shown of `op >>= k` is what has to be shown of `k` in every world
in which `op` may return.
-/

namespace RelayPoint.Signaling

open Concurrency Journal

/-! ## The discipline of an outline -/

def Points (w : World) (o : Nat) (key : String) : Prop :=
  ∃ cell, w.heap[o]? = some cell ∧ cell.key = key

def Flies (w : World) (f : Nat) (key : String) : Prop :=
  ∃ res, w.flights[f]? = some (key, res)

structure Moves (w w' : World) : Prop where
  grows : Extends w.broker w'.broker
  points : ∀ {o key}, Points w o key → Points w' o key
  flies : ∀ {f key}, Flies w f key → Flies w' f key

theorem Moves.refl (w : World) : Moves w w :=
  ⟨Extends.refl _, id, id⟩

theorem Moves.trans {w₁ w₂ w₃ : World} (h : Moves w₁ w₂) (h' : Moves w₂ w₃) : Moves w₁ w₃ :=
  ⟨h.grows.trans h'.grows, fun hp => h'.points (h.points hp), fun hf => h'.flies (h.flies hf)⟩

namespace Outline

variable (O : Outline)

structure WorldInv (w : World) : Prop where
  sound : Sound w.broker
  inv : O.Inv w.broker
  obj : ∀ {o : Nat} {cell : Cell}, w.heap[o]? = some cell → O.Obj w.broker cell.key cell.st
  inter : ∀ {r key o}, w.inter r key = some o → Points w o key
  load : ∀ {r key f}, w.load r key = some f → Flies w f key
  flights : ∀ {f o : Nat} {key : String}, w.flights[f]? = some (key, some (some o)) →
    Points w o key

def discipline : Discipline World where
  Inv := O.WorldInv
  Rely := Moves
  Guar := Moves
  refl := Moves.refl
  trans := Moves.trans

abbrev Ens (b₀ : LogStore) {α : Type} (Q : α → World → Prop) (prog : Program α) (w : World) : Prop :=
  Ensures machine (O.ok b₀) O.discipline Q prog w

def After (w : World) (P : World → Prop) : Prop :=
  ∀ w', Moves w w' → O.WorldInv w' → P w'

variable {O}

theorem WorldInv.start : O.WorldInv World.start := by
  refine ⟨Sound.empty, O.inv_empty, ?_, ?_, ?_, ?_⟩
  all_goals
    simp_all [World.start]

variable {o : Nat} {key : String} {b : LogStore}

theorem WorldInv.obj_of_holds {w : World} (h : O.WorldInv w) {st : InteractionState}
    (hh : Holds w o key st) : O.Obj w.broker key st := by
  rcases hh with ⟨cell, hcell, rfl, rfl⟩
  exact h.obj hcell

/-! ## Frame rules: what may change without anybody noticing -/

variable {w w' : World}

theorem WorldInv.frame_inter (h : O.WorldInv w) {inter load : Nat → String → Option Nat}
    (hi : ∀ {r key o}, inter r key = some o → Points w o key)
    (hl : ∀ {r key f}, load r key = some f → Flies w f key) :
    O.WorldInv { w with inter := inter, load := load } where
  sound := h.sound
  inv := h.inv
  obj := h.obj
  inter := hi
  load := hl
  flights := h.flights

theorem moves_frame_inter (w : World) (inter load : Nat → String → Option Nat) :
    Moves w { w with inter := inter, load := load } :=
  ⟨Extends.refl _, id, id⟩

theorem WorldInv.frame_broker (h : O.WorldInv w) (hb : Extends w.broker b) (hs : Sound b)
    (hi : O.Inv b) : O.WorldInv { w with broker := b } where
  sound := hs
  inv := hi
  obj := fun hcell => O.mono.obj hb (h.obj hcell)
  inter := h.inter
  load := h.load
  flights := h.flights

theorem moves_frame_broker (hb : Extends w.broker b) : Moves w { w with broker := b } :=
  ⟨hb, id, id⟩

theorem setAt_eq {β : Type} {g : Nat → String → Option β} {r r' : Nat} {key' : String}
    {v : Option β} {x : β} (h : setAt g r key v r' key' = some x) :
    (r' = r ∧ key' = key ∧ v = some x) ∨ g r' key' = some x := by
  by_cases hk : r' = r ∧ key' = key
  · exact .inl ⟨hk.1, hk.2, by simpa [setAt, hk] using h⟩
  · exact .inr (by simpa [setAt, hk] using h)

theorem WorldInv.evict (h : O.WorldInv w) (r : Nat) (key : String) :
    O.WorldInv { w with inter := setAt w.inter r key none } := by
  refine h.frame_inter ?_ h.load
  intro r' key' o ho
  rcases setAt_eq ho with ⟨_, _, hnone⟩ | hold
  · cases hnone
  · exact h.inter hold

theorem points_set {o' : Nat} {cell cell' : Cell} (hcell : w.heap[o]? = some cell)
    (hkey : cell'.key = cell.key) (hp : Points w o' key) :
    Points { w with heap := w.heap.set o cell' } o' key := by
  rcases hp with ⟨c, hc, hk⟩
  by_cases ho : o = o'
  · subst ho
    have hcc : cell = c := Option.some.inj (hcell.symm.trans hc)
    have hlt : o < w.heap.length := (List.getElem?_eq_some_iff.1 hc).1
    exact ⟨cell', by simp [hlt], by rw [hkey, hcc, hk]⟩
  · exact ⟨c, by simpa [ho] using hc, hk⟩

theorem WorldInv.frame_heap (h : O.WorldInv w) {cell cell' : Cell} (hcell : w.heap[o]? = some cell)
    (hkey : cell'.key = cell.key) (hobj : O.Obj w.broker cell'.key cell'.st) :
    Moves w { w with heap := w.heap.set o cell' } ∧
      O.WorldInv { w with heap := w.heap.set o cell' } := by
  have hset : ∀ {o' key}, Points w o' key →
      Points { w with heap := w.heap.set o cell' } o' key := points_set hcell hkey
  refine ⟨⟨Extends.refl _, hset, id⟩, h.sound, h.inv, ?_, fun hr => hset (h.inter hr), h.load,
    fun hf => hset (h.flights hf)⟩
  intro o' c hc
  by_cases ho : o = o'
  · subst ho
    have hlt : o < w.heap.length := (List.getElem?_eq_some_iff.1 hcell).1
    have hcc : cell' = c := by simpa [hlt] using hc
    rw [← hcc]
    exact hobj
  · exact h.obj (by simpa [ho] using hc)

/-! ## Operations -/

section Operations

variable {b₀ : LogStore} {α : Type} {Q : α → World → Prop} {r o f : Nat} {key subject : String}
variable {st : InteractionState}

theorem ens_effect {op : Op} {k : Ans op → Program α}
    (h : O.After w fun w₁ => ∀ a w₂, Effect w₁ op a w₂ →
      Moves w₁ w₂ ∧ O.WorldInv w₂ ∧ O.Ens b₀ Q (k a) w₂) :
    O.Ens b₀ Q (Prog.perform op >>= k) w := by
  apply ensures_perform
  intro w₁ hm hw ch a w₂ _ hp
  exact h w₁ hm hw a w₂ (perform_effect hp)

theorem ens_now {k : Nat → Program α} (h : ∀ t, O.After w (O.Ens b₀ Q (k t))) :
    O.Ens b₀ Q (now >>= k) w := by
  apply ens_effect
  rintro w₁ hm hw t _ rfl
  exact ⟨Moves.refl _, hw, h t _ hm hw⟩

theorem ens_newID {k : String → Program α} (h : ∀ s, O.After w (O.Ens b₀ Q (k s))) :
    O.Ens b₀ Q (newID >>= k) w := by
  apply ens_effect
  rintro w₁ hm hw s _ rfl
  exact ⟨Moves.refl _, hw, h s _ hm hw⟩

theorem ens_interGet {k : Option Nat → Program α}
    (h : ∀ res, O.After w fun w' => (∀ o, res = some o → Points w' o key) →
      O.Ens b₀ Q (k res) w') : O.Ens b₀ Q (interGet r key >>= k) w := by
  apply ens_effect
  rintro w₁ hm hw _ _ ⟨rfl, rfl⟩
  exact ⟨Moves.refl _, hw, h _ _ hm hw fun o ho => hw.inter ho⟩

variable {k : Unit → Program α} {key' : String} {res : Option Nat}

theorem ens_interDelete (h : O.After w (O.Ens b₀ Q (k ()))) :
    O.Ens b₀ Q (interDelete r key >>= k) w := by
  apply ens_effect
  rintro w₁ hm hw _ _ rfl
  have hm' := moves_frame_inter w₁ (setAt w₁.inter r key none) w₁.load
  exact ⟨hm', hw.evict r key, h _ (hm.trans hm') (hw.evict r key)⟩

theorem points_alloc {o' : Nat} (hp : Points w o' key') : Points (w.alloc r key st) o' key' := by
  rcases hp with ⟨cell, hcell, hkey⟩
  have hlt : o' < w.heap.length := (List.getElem?_eq_some_iff.1 hcell).1
  exact ⟨cell, by simpa [World.alloc, List.getElem?_append_left hlt] using hcell, hkey⟩

theorem points_alloc_new (w : World) : Points (w.alloc r key st) w.heap.length key :=
  ⟨⟨key, st, false⟩, by simp [World.alloc], rfl⟩

theorem WorldInv.alloc (h : O.WorldInv w) (hobj : O.Obj w.broker key st) :
    O.WorldInv (w.alloc r key st) where
  sound := h.sound
  inv := h.inv
  obj := by
    intro o' cell hcell
    by_cases hlt : o' < w.heap.length
    · exact h.obj (by simpa [World.alloc, List.getElem?_append_left hlt] using hcell)
    · have hmem : cell ∈ [(⟨key, st, false⟩ : Cell)] := by
        apply List.mem_of_getElem? (i := o' - w.heap.length)
        simpa [World.alloc, List.getElem?_append_right (Nat.le_of_not_lt hlt)] using hcell
      have hcell' : cell = ⟨key, st, false⟩ := by simpa using hmem
      rw [hcell']
      exact hobj
  inter := by
    intro r' key' o' ho
    rcases setAt_eq ho with ⟨_, hk, hsome⟩ | hold
    · cases hsome
      rw [hk]
      exact points_alloc_new w
    · exact points_alloc (h.inter hold)
  load := h.load
  flights := fun hf => points_alloc (h.flights hf)

theorem ens_interPut {k : Nat → Program α} (hobj : O.Obj w.broker key st)
    (h : ∀ o, O.After w fun w' => Points w' o key → O.Ens b₀ Q (k o) w') :
    O.Ens b₀ Q (interPut r key st >>= k) w := by
  apply ens_effect
  rintro w₁ hm hw _ _ ⟨rfl, rfl⟩
  have hm' : Moves w₁ (w₁.alloc r key st) := ⟨Extends.refl _, points_alloc, id⟩
  have hw' : O.WorldInv (w₁.alloc r key st) := hw.alloc (O.mono.obj hm.grows hobj)
  exact ⟨hm', hw', h _ _ (hm.trans hm') hw' (points_alloc_new w₁)⟩

theorem flies_takeOff {f' : Nat} (hf : Flies w f' key') : Flies (w.takeOff r key) f' key' := by
  rcases hf with ⟨res, hres⟩
  have hlt : f' < w.flights.length := (List.getElem?_eq_some_iff.1 hres).1
  exact ⟨res, by simpa [World.takeOff, List.getElem?_append_left hlt] using hres⟩

theorem flies_takeOff_new (w : World) : Flies (w.takeOff r key) w.flights.length key :=
  ⟨none, by simp [World.takeOff]⟩

theorem WorldInv.takeOff (h : O.WorldInv w) : O.WorldInv (w.takeOff r key) where
  sound := h.sound
  inv := h.inv
  obj := h.obj
  inter := h.inter
  load := by
    intro r' key' f' hf
    rcases setAt_eq hf with ⟨_, hk, hsome⟩ | hold
    · cases hsome
      rw [hk]
      exact flies_takeOff_new w
    · exact flies_takeOff (h.load hold)
  flights := by
    intro f' o' key' hf
    by_cases hlt : f' < w.flights.length
    · exact h.flights (by simpa [World.takeOff, List.getElem?_append_left hlt] using hf)
    · -- A flight that has just started has no result.
      have hmem : (key', some (some o')) ∈ [(key, (none : Option (Option Nat)))] := by
        apply List.mem_of_getElem? (i := f' - w.flights.length)
        simpa [World.takeOff, List.getElem?_append_right (Nat.le_of_not_lt hlt)] using hf
      simp at hmem

theorem ens_loadJoin {k : Flight → Program α}
    (hlead : ∀ f, O.After w fun w' => Flies w' f key → O.Ens b₀ Q (k (.lead f)) w')
    (hjoin : ∀ f, O.After w fun w' => Flies w' f key → O.Ens b₀ Q (k (.join f)) w') :
    O.Ens b₀ Q (loadJoin r key >>= k) w := by
  apply ens_effect
  rintro w₁ hm hw (f | f) w₂ he
  · rcases he with ⟨_, rfl, rfl⟩
    have hm' : Moves w₁ (w₁.takeOff r key) := ⟨Extends.refl _, id, flies_takeOff⟩
    exact ⟨hm', hw.takeOff, hlead _ _ (hm.trans hm') hw.takeOff (flies_takeOff_new w₁)⟩
  · rcases he with ⟨hl, rfl⟩
    exact ⟨Moves.refl _, hw, hjoin f _ hm hw (hw.load hl)⟩

theorem ens_loadWait {k : Option Nat → Program α} (hf : Flies w f key)
    (h : ∀ res, O.After w fun w' => (∀ o, res = some o → Points w' o key) →
      O.Ens b₀ Q (k res) w') : O.Ens b₀ Q (loadWait f >>= k) w := by
  apply ens_effect
  rintro w₁ hm hw res _ ⟨⟨key', hres⟩, rfl⟩
  rcases hm.flies hf with ⟨old, hold⟩
  have hkey : key' = key := congrArg Prod.fst (Option.some.inj (hres.symm.trans hold))
  refine ⟨Moves.refl _, hw, h _ _ hm hw ?_⟩
  rintro o rfl
  exact hw.flights (hkey ▸ hres)

theorem flies_land (hf : Flies w f key) {f' : Nat} (h : Flies w f' key') :
    Flies (w.land r key f res) f' key' := by
  rcases hf with ⟨old, hold⟩
  rcases h with ⟨res', hres'⟩
  by_cases hff : f = f'
  · subst hff
    have hlt : f < w.flights.length := (List.getElem?_eq_some_iff.1 hold).1
    have heq : (key, old) = (key', res') := Option.some.inj (hold.symm.trans hres')
    exact ⟨some res, by simp [World.land, hlt, (Prod.mk.inj heq).1]⟩
  · exact ⟨res', by simpa [World.land, hff] using hres'⟩

theorem WorldInv.land (hw : O.WorldInv w) (hf : Flies w f key)
    (hres : ∀ o, res = some o → Points w o key) : O.WorldInv (w.land r key f res) := by
  refine ⟨hw.sound, hw.inv, hw.obj, hw.inter, ?_, ?_⟩
  · intro r' key' f' hf'
    apply flies_land hf
    by_cases hl : w.load r key = some f
    · rcases setAt_eq (by simpa [World.land, hl] using hf') with ⟨_, _, hnone⟩ | hload
      · cases hnone
      · exact hw.load hload
    · exact hw.load (by simpa [World.land, hl] using hf')
  · intro f' o' key' hf'
    by_cases hff : f = f'
    · subst hff
      have hlt : f < w.flights.length := (List.getElem?_eq_some_iff.1 hf.choose_spec).1
      have heq : key = key' ∧ res = some o' := by simpa [World.land, hlt] using hf'
      rw [← heq.1]
      exact hres o' heq.2
    · exact hw.flights (by simpa [World.land, hff] using hf')

theorem ens_loadDone (hf : Flies w f key) (hres : ∀ o, res = some o → Points w o key)
    (h : O.After w (O.Ens b₀ Q (k ()))) : O.Ens b₀ Q (loadDone r key f res >>= k) w := by
  apply ens_effect
  rintro w₁ hm hw _ _ rfl
  have hm' : Moves w₁ (w₁.land r key f res) := ⟨Extends.refl _, id, flies_land (hm.flies hf)⟩
  have hw' := hw.land (r := r) (hm.flies hf) fun o ho => hm.points (hres o ho)
  exact ⟨hm', hw', h _ (hm.trans hm') hw'⟩

theorem ens_lock {k : InteractionState → Program α} {site : LockSite} (hp : Points w o key)
    (h : ∀ st, O.After w fun w₁ => Holds w₁ o key st → O.ok b₀ w₁ (.lock site o) .go →
      O.After w₁ (O.Ens b₀ Q (k st))) : O.Ens b₀ Q (lock site o >>= k) w := by
  apply ensures_perform
  intro w₁ hm hw ch a w₂ hok hperf
  rcases perform_effect hperf with ⟨cell, hcell, _, rfl, rfl⟩
  rcases hm.points hp with ⟨cell', hcell', hkey⟩
  cases hcell.symm.trans hcell'
  have hobj : O.Obj w₁.broker cell.key cell.st := hw.obj hcell
  rcases hw.frame_heap hcell (show ({ cell with locked := true } : Cell).key = _ from rfl) hobj with
    ⟨hm', hw'⟩
  cases ch with
  | go => exact ⟨hm', hw', h _ w₁ hm hw ⟨cell, hcell, hkey, rfl⟩ hok _ hm' hw'⟩
  | _ => cases hperf

theorem ens_unlock (hp : Points w o key) (hobj : O.Obj w.broker key st)
    (h : O.After w (O.Ens b₀ Q (k ()))) : O.Ens b₀ Q (unlock o st >>= k) w := by
  apply ens_effect
  rintro w₁ hm hw _ _ ⟨cell, hcell, rfl⟩
  rcases hm.points hp with ⟨cell', hcell', rfl⟩
  cases hcell.symm.trans hcell'
  rcases hw.frame_heap hcell
    (show ({ cell with st := st, locked := false } : Cell).key = _ from rfl)
    (O.mono.obj hm.grows hobj) with ⟨hm', hw'⟩
  exact ⟨hm', hw', h _ (hm.trans hm') hw'⟩

theorem ens_rebuild {rt : Router} {site : ReplaySite} {t i : String}
    {k : Option InteractionState → Program α}
    (hgo : O.After w fun w' => O.ok b₀ w' (.replay site (logSubjectFor t i)) .go →
      O.Ens b₀ Q (k (some (built w'.broker (logSubjectFor t i) rt.maxResults))) w')
    (hfail : O.After w fun w' => O.ok b₀ w' (.replay site (logSubjectFor t i)) .fail →
      O.Ens b₀ Q (k none) w') : O.Ens b₀ Q (rebuild rt site t i >>= k) w := by
  apply ensures_bind
  apply ensures_perform
  intro w₁ hm hw ch a w₂ hok hp
  cases ch with
  | go =>
    cases hp
    exact ⟨Moves.refl _, hw, hgo w₁ hm hw hok⟩
  | fail =>
    cases hp
    exact ⟨Moves.refl _, hw, hfail w₁ hm hw hok⟩
  | _ => cases hp

variable {expected : Nat}

theorem ens_append {author : Author} {ev : Event} {id : String}
    {k : Except AppendError (Bool × Nat) → Program α}
    (hstore : O.After w fun w₁ => ∀ ch, ch ≠ .fail →
      O.ok b₀ w₁ (.append author subject ev id expected) ch → w₁.broker.window.lookup id = none →
      lastSeq subject w₁.broker.stream = expected →
      Sound (w₁.broker.commit ⟨subject, id, ⟨author, ev⟩⟩) ∧
        O.Inv (w₁.broker.commit ⟨subject, id, ⟨author, ev⟩⟩))
    (hconflict : O.After w (O.Ens b₀ Q (k (.error .occConflict))))
    (herror : O.After w (O.Ens b₀ Q (k (.error .other)))) (hduplicate : O.After w fun w' => ∀ ch n,
      O.ok b₀ w' (.append author subject ev id expected) ch →
      duplicateOf w' subject id expected ch = some n → O.Ens b₀ Q (k (.ok (true, n))) w')
    (hcommit : O.After w fun w₁ => ∀ ch, ch ≠ .fail →
      O.ok b₀ w₁ (.append author subject ev id expected) ch → w₁.broker.window.lookup id = none →
      lastSeq subject w₁.broker.stream = expected → O.After w₁ fun w' =>
        w'.broker = w₁.broker.commit ⟨subject, id, ⟨author, ev⟩⟩ →
        O.Ens b₀ Q (k (.ok (false, w₁.broker.stream.length + 1))) w') :
    O.Ens b₀ Q (append author subject ev id expected >>= k) w := by
  apply ensures_perform
  intro w₁ hm hw ch a w₂ hok hp
  -- What an offer leaves behind keeps the invariant, whoever learns about it; the answer matters
  -- only to a caller that gets it.
  have offered : ∀ {first ack b'}, ch ≠ .fail →
      w₁.broker.offer first ⟨subject, id, ⟨author, ev⟩⟩ expected = (ack, b') →
      Moves w₁ { w₁ with broker := b' } ∧ O.WorldInv { w₁ with broker := b' } ∧
        ((∀ n, w₁.broker.window.lookup id = some n →
            (first = true ∨ lastSeq subject w₁.broker.stream = expected) →
            duplicateOf w₁ subject id expected ch = some n) →
          O.Ens b₀ Q (k (answer ack)) { w₁ with broker := b' }) := by
    intro first ack b' hch ho
    rcases Broker.offer_cases ho with
      ⟨n, hn, hacked, rfl, rfl⟩ | ⟨rfl, rfl⟩ | ⟨hnone, hlast, rfl, rfl⟩
    · exact ⟨Moves.refl _, hw, fun hdup => hduplicate w₁ hm hw ch n hok (hdup n hn hacked)⟩
    · exact ⟨Moves.refl _, hw, fun _ => hconflict w₁ hm hw⟩
    · rcases hstore w₁ hm hw ch hch hok hnone hlast with ⟨hs, hi⟩
      have hb := extends_commit w₁.broker ⟨subject, id, ⟨author, ev⟩⟩
      have hw' := hw.frame_broker hb hs hi
      exact ⟨moves_frame_broker hb, hw',
        fun _ => hcommit w₁ hm hw ch hch hok hnone hlast _ (moves_frame_broker hb) hw' rfl⟩
  cases ch with
  | go =>
    cases hp
    rcases @offered false _ _ (by simp) rfl with ⟨hm', hw', hk⟩
    refine ⟨hm', hw', hk ?_⟩
    intro n hn hacked
    simp only [duplicateOf, hn]
    exact if_pos (by simpa using hacked)
  | dedupFirst =>
    cases hp
    rcases @offered true _ _ (by simp) rfl with ⟨hm', hw', hk⟩
    exact ⟨hm', hw', hk fun n hn _ => hn⟩
  | lost =>
    cases hp
    rcases @offered false _ _ (by simp) rfl with ⟨hm', hw', _⟩
    exact ⟨hm', hw', herror _ (hm.trans hm') hw'⟩
  | fail =>
    cases hp
    exact ⟨Moves.refl _, hw, herror w₁ hm hw⟩
  | _ => cases hp

theorem lookup_of_duplicateOf {id : String} {n : Nat} {ch : Choice}
    (h : duplicateOf w subject id expected ch = some n) : w.broker.window.lookup id = some n := by
  cases ch with
  | go =>
    simp only [duplicateOf] at h
    split at h
    · exact h
    · cases h
  | dedupFirst => exact h
  | _ => cases h

end Operations

/-! ## State access -/

section Programs

variable {b₀ : LogStore} {α : Type} {rt : Router} {t i : String}

theorem ens_loadState {Q : Option Nat → World → Prop} (ht : DotFree t) (hi : DotFree i)
    (h : ∀ res, O.After w fun w' => (∀ o, res = some o → Points w' o (stateKey t i)) → Q res w') :
    O.Ens b₀ Q (loadState rt t i) w := by
  apply ens_interGet
  intro res w₁ hm₁ hw₁ hres
  cases res with
  | some o => exact h _ w₁ hm₁ hw₁ hres
  | none =>
    apply ens_rebuild
    · intro w₂ hm₂ hw₂ _
      apply ens_interPut (O.obj_built ht hi hw₂.sound hw₂.inv)
      intro o w₃ hm₃ hw₃ ho
      refine h _ w₃ (hm₁.trans (hm₂.trans hm₃)) hw₃ ?_
      intro o' ho'
      cases ho'
      exact ho
    · intro w₂ hm₂ hw₂ _
      exact h none w₂ (hm₁.trans hm₂) hw₂ (by simp)

theorem ens_getState {Q : α → World → Prop} {k : Option Nat → Program α} (ht : DotFree t)
    (hi : DotFree i)
    (h : ∀ res, O.After w fun w' => (∀ o, res = some o → Points w' o (stateKey t i)) →
      O.Ens b₀ Q (k res) w') : O.Ens b₀ Q (getState rt t i >>= k) w := by
  apply ensures_bind
  apply ens_interGet
  intro res w₁ hm₁ hw₁ hres
  cases res with
  | some o => exact h _ w₁ hm₁ hw₁ hres
  | none =>
    apply ens_loadJoin
    · intro f w₂ hm₂ hw₂ hf
      apply ensures_bind
      apply ens_loadState ht hi
      intro res w₃ hm₃ hw₃ hres
      apply ens_loadDone (hm₃.flies hf) hres
      intro w₄ hm₄ hw₄
      refine h res w₄ (hm₁.trans (hm₂.trans (hm₃.trans hm₄))) hw₄ ?_
      intro o ho
      exact hm₄.points (hres o ho)
    · intro f w₂ hm₂ hw₂ hf
      apply ens_loadWait hf
      intro res w₃ hm₃ hw₃ hres
      exact h res w₃ (hm₁.trans (hm₂.trans hm₃)) hw₃ hres

/-! ## Both append loops -/

variable {Q : CommandResult × InteractionState → World → Prop} {st : InteractionState}

theorem ens_failClosed {res : CommandResult}
    (h : O.After w (Q (res, st.poison))) : O.Ens b₀ Q (failClosed rt t i st res) w :=
  ens_interDelete h

theorem ens_evictWhen {k : Unit → Program α} {R : α → World → Prop} {ended : Bool}
    (hw : O.WorldInv w) (h : O.After w (O.Ens b₀ R (k ()))) :
    O.Ens b₀ R (evictWhen rt t i ended >>= k) w := by
  cases ended with
  | true => exact ens_interDelete h
  | false => exact h w (Moves.refl _) hw

theorem ens_onConflict {site : ReplaySite} {commandId : String} {retry : Option Attempt}
    (hagain : O.After w fun w' => ∀ again,
      O.ok b₀ w' (.replay site (logSubjectFor t i)) .go → retry = some again →
      O.Ens b₀ Q (again (st.refold (built w'.broker (logSubjectFor t i) rt.maxResults) rt.maxResults)) w')
    (hgiveUp : O.After w (Q (rejected commandId "lost concurrent append — retry", st.poison))) :
    O.Ens b₀ Q (onConflict rt site t i commandId st retry) w := by
  have giveUp : ∀ w', Moves w w' → O.Ens b₀ Q
      (failClosed rt t i st (rejected commandId "lost concurrent append — retry")) w' := by
    intro w' hm
    apply ens_failClosed
    intro w'' hm' hw''
    exact hgiveUp w'' (hm.trans hm') hw''
  apply ens_rebuild
  · intro w₁ hm hw hok
    cases retry with
    | none => exact giveUp w₁ hm
    | some again => exact hagain w₁ hm hw again hok rfl
  · intro w₁ hm _ _
    exact giveUp w₁ hm

theorem ens_locked {site : LockSite} {name : String} {loop : Attempt}
    {Q : CommandResult → World → Prop} (ht : DotFree t) (hi : DotFree i)
    (hretry : ∀ reason ∈ retryReasons, ∀ w', Q (rejected name reason) w')
    (hmono : ∀ {res w₁ w₂}, Moves w₁ w₂ → Q res w₁ → Q res w₂)
    (hloop : ∀ {o st}, O.After w fun w₁ => Holds w₁ o (stateKey t i) st → st.poisoned = false →
      O.ok b₀ w₁ (.lock site o) .go → O.After w₁ (O.Ens b₀
        (fun out w' => Q out.1 w' ∧ O.Obj w'.broker (stateKey t i) out.2) (loop st))) :
    O.Ens b₀ Q (locked rt site t i name loop) w := by
  apply ens_getState ht hi
  intro res w₁ hm₁ hw₁ hres
  cases res with
  | none => exact hretry _ (by simp [retryReasons]) w₁
  | some o =>
    apply ens_lock (hres o rfl)
    intro st w₂ hm₂ hw₂ hholds hok w₃ hm₃ hw₃
    have hp₃ : Points w₃ o (stateKey t i) := hm₃.points (hm₂.points (hres o rfl))
    by_cases hpois : st.poisoned = true
    · simp only [hpois]
      apply ens_unlock hp₃ (O.mono.obj hm₃.grows (hw₂.obj_of_holds hholds))
      intro w₄ _ _
      exact hretry _ (by simp [retryReasons]) w₄
    · simp only [hpois]
      apply ensures_bind
      apply Ensures.of_rely id ?_ (show O.discipline.Rely w₃ w₃ from Moves.refl w₃) hw₃
        (hloop w₂ (hm₁.trans hm₂) hw₂ hholds (by simpa using hpois) hok w₃ hm₃ hw₃)
      rintro ⟨res, st'⟩ w₄ hm₄ hw₄ ⟨hres, hobj⟩
      apply ens_unlock (hm₄.points hp₃) hobj
      intro w₅ hm₅ _
      exact hmono hm₅ hres

end Programs

/-! ## Ordinary commands -/

section Commands

variable {b₀ : LogStore} {rt : Router} {st : InteractionState}

def LoopPost (O : Outline) (b₀ : LogStore) (c : Ordinary) (out : CommandResult × InteractionState)
    (w : World) : Prop :=
  O.Replied b₀ w.broker c out.1 ∧ O.Obj w.broker c.key out.2

variable {c : Ordinary}
variable {reason : String} {retry : Option Attempt} {rest : List PlannedFact}

theorem loopPost_giveUp (hmem : reason ∈ retryReasons) (hready : O.Ready b₀ w.broker c st)
    (hm : Moves w w') : O.LoopPost b₀ c (rejected c.cmd.commandId reason, st.poison) w' :=
  ⟨O.retried hmem, O.obj_poison (O.mono.obj hm.grows (O.obj_of_ready hready))⟩

theorem ens_attempt
    (hretry : ∀ again st w, retry = some again → O.WorldInv w → O.Ready b₀ w.broker c st →
      O.Ens b₀ (O.LoopPost b₀ c) (again st) w) (hw : O.WorldInv w)
    (hready : O.Ready b₀ w.broker c st) : O.Ens b₀ (O.LoopPost b₀ c) (attempt rt c retry st) w := by
  unfold attempt
  cases hpre : c.precheck rt.maxResults st with
  | some out => exact O.precheck hw.sound hw.inv hready hpre
  | none =>
    apply ens_newID
    intro eventId w₁ hm₁ hw₁
    apply ens_now
    intro at_ w₂ hm₂ hw₂
    have hready₂ : O.Ready b₀ w₂.broker c st := O.mono.ready (hm₁.trans hm₂).grows hready
    apply ens_append
    · intro w₃ hm₃ hw₃ ch _ _ hnone hlast
      have hready₃ := O.mono.ready hm₃.grows hready₂
      exact ⟨hw₃.sound.commit (c.minted_message st eventId at_),
        (O.commit eventId at_ hw₃.sound hw₃.inv hready₃ hpre hnone hlast).1⟩
    · -- lost the race
      intro w₃ hm₃ hw₃
      have hready₃ := O.mono.ready hm₃.grows hready₂
      apply ens_onConflict
      · intro w₄ hm₄ hw₄ again hok hagain
        have hready₄ := O.mono.ready hm₄.grows hready₃
        exact hretry again _ w₄ hagain hw₄ (O.refold hw₄.sound hw₄.inv hready₄ hpre hok)
      · intro w₄ hm₄ _
        exact loopPost_giveUp (by simp [retryReasons]) hready₃ hm₄
    · -- the ack was lost, or the append failed
      intro w₃ hm₃ hw₃
      have hready₃ := O.mono.ready hm₃.grows hready₂
      have giveUp : ∀ w₄, Moves w₃ w₄ → O.Ens b₀ (O.LoopPost b₀ c) (failClosed rt c.tenant c.iid st
          (rejected c.cmd.commandId "log append failed — retry")) w₄ := by
        intro w₄ hm₄
        apply ens_failClosed
        intro w₅ hm₅ _
        exact loopPost_giveUp (by simp [retryReasons]) hready₃ (hm₄.trans hm₅)
      apply ens_rebuild
      · intro w₄ hm₄ hw₄ hok
        have hready₄ := O.mono.ready hm₄.grows hready₃
        cases hres : (built w₄.broker c.subject rt.maxResults).results.lookup
            c.cmd.commandId with
        | some prev =>
          simp only [Option.bind_some, show logSubjectFor c.tenant c.iid = c.subject from rfl, hres]
          exact O.lostAck hw₄.sound hw₄.inv hready₄ hok hres
        | none =>
          simp only [Option.bind_some, show logSubjectFor c.tenant c.iid = c.subject from rfl, hres]
          exact giveUp w₄ hm₄
      · intro w₄ hm₄ _ _
        exact giveUp w₄ hm₄
    · -- a duplicate
      intro w₃ hm₃ hw₃ ch n _ hn
      have hready₃ := O.mono.ready hm₃.grows hready₂
      have horig : ∃ m ∈ w₃.broker.stream, m.id = c.dedupID := by
        rcases hw₃.sound.window.of_lookup (lookup_of_duplicateOf hn) with ⟨m, _, hget, hid⟩
        exact ⟨m, List.mem_of_getElem? hget, hid⟩
      have horig' : ∀ {w₄}, Moves w₃ w₄ → ∃ m ∈ w₄.broker.stream, m.id = c.dedupID := by
        intro w₄ hm₄
        rcases horig with ⟨m, hm, hid⟩
        exact ⟨m, hm₄.grows.mem hm, hid⟩
      apply ens_rebuild
      · intro w₄ hm₄ hw₄ hok
        have hready₄ := O.mono.ready hm₄.grows hready₃
        exact O.duplicate hw₄.sound hw₄.inv hready₄ hpre (horig' hm₄) hok
      · intro w₄ hm₄ hw₄ hok
        have hready₄ := O.mono.ready hm₄.grows hready₃
        have hrep := O.unreadable hw₄.sound hw₄.inv hready₄ (horig' hm₄) hok
        apply ens_failClosed
        intro w₅ hm₅ _
        exact ⟨O.mono.replied hm₅.grows hrep,
          O.obj_poison (O.mono.obj (hm₄.trans hm₅).grows (O.obj_of_ready hready₃))⟩
    · -- committed
      intro w₃ hm₃ hw₃ ch _ _ hnone hlast w₄ _ hw₄ hb
      have hready₃ := O.mono.ready hm₃.grows hready₂
      have hdone := (O.commit eventId at_ hw₃.sound hw₃.inv hready₃ hpre hnone hlast).2
      apply ens_evictWhen hw₄
      intro w₅ hm₅ _
      have hgrow : Extends (w₃.broker.commit (c.message st eventId at_)) w₅.broker := by
        have := hm₅.grows
        rwa [hb] at this
      exact ⟨O.mono.replied hgrow hdone.2, O.mono.obj hgrow hdone.1⟩

theorem ens_handleOrdinary (hc : O.okOrdinary c) :
    O.Ens w.broker (fun res w' => O.Replied w.broker w'.broker c res) (handleOrdinary rt c) w := by
  refine ens_locked c.tenant_dotFree c.iid_dotFree (fun reason hmem _ => O.retried hmem)
    (fun hm => O.mono.replied hm.grows) ?_
  intro o st w₁ hm hw hholds hpois hok w₂ hm' hw₂
  have hready : O.Ready w.broker w₁.broker c st :=
    O.ready hc hm.grows hw.sound hw.inv hholds hpois (hw.obj_of_holds hholds) hok
  -- every attempt starts in a world in which the command is ready
  refine appendLoop_induct (P := fun again => ∀ st w', O.WorldInv w' →
    O.Ready w.broker w'.broker c st → O.Ens w.broker (O.LoopPost w.broker c) (again st) w') ?_ _ st
    w₂ hw₂ (O.mono.ready hm'.grows hready)
  intro retry hretry st w' hw' hready'
  exact ens_attempt (fun again st w hagain => hretry again hagain st w) hw' hready'

/-! ## Privileged commands -/

variable {p : Privileged} {landed : List PlannedFact} {fact : PlannedFact}

def FactAnswer (O : Outline) (b₀ : LogStore) (p : Privileged) (landed : List PlannedFact)
    (fact : PlannedFact) (res : CommandResult) (w : World) : Prop :=
  res.status = .rejected ∨ res.status = .accepted ∧ O.Cleared b₀ w.broker p (landed ++ [fact])

def FactPost (O : Outline) (b₀ : LogStore) (p : Privileged) (landed : List PlannedFact)
    (fact : PlannedFact) (out : CommandResult × InteractionState) (w : World) : Prop :=
  O.FactAnswer b₀ p landed fact out.1 w ∧ O.Obj w.broker p.key out.2

variable {res : CommandResult}

theorem FactAnswer.mono (h : O.FactAnswer b₀ p landed fact res w) (hm : Moves w w') :
    O.FactAnswer b₀ p landed fact res w' := by
  rcases h with hrej | ⟨hacc, hcl⟩
  · exact .inl hrej
  · exact .inr ⟨hacc, O.mono.cleared hm.grows hcl⟩

theorem factGate_status (h : p.factGate fact st = some res) : res.status = .rejected := by
  unfold Privileged.factGate at h
  split at h
  · cases h
  · cases h
    rfl

theorem checkFact_status (h : p.checkFact fact st = some res) :
    res.status = .rejected ∨ res.status = .accepted := by
  unfold Privileged.checkFact at h
  split at h
  · split at h
    · cases h
      exact .inl rfl
    · split at h
      · rename_i hacc
        cases h
        exact .inr hacc
      · exact .inl (factGate_status h)
  · exact .inl (factGate_status h)

theorem factPost_giveUp {id : String} (hready : O.FactReady b₀ w.broker p landed fact st)
    (hm : Moves w w') : O.FactPost b₀ p landed fact (rejected id reason, st.poison) w' :=
  ⟨.inl rfl, O.obj_poison (O.mono.obj hm.grows (O.obj_of_factReady hready))⟩

theorem ens_attemptFact (hretry : ∀ again st w, retry = some again → O.WorldInv w →
      O.FactReady b₀ w.broker p landed fact st →
      O.Ens b₀ (O.FactPost b₀ p landed fact) (again st) w) (hw : O.WorldInv w)
    (hready : O.FactReady b₀ w.broker p landed fact st) :
    O.Ens b₀ (O.FactPost b₀ p landed fact) (attemptFact rt p fact retry st) w := by
  unfold attemptFact
  cases hcheck : p.checkFact fact st with
  | some res =>
    apply ens_evictWhen hw
    intro w₁ hm₁ _
    have hobj := O.mono.obj hm₁.grows (O.obj_of_factReady hready)
    rcases checkFact_status hcheck with hrej | hacc
    · exact ⟨.inl hrej, hobj⟩
    · have hcl := O.replayed hw.sound hw.inv hready hcheck hacc
      exact ⟨.inr ⟨hacc, O.mono.cleared hm₁.grows hcl⟩, hobj⟩
  | none =>
    apply ens_newID
    intro eventId w₁ hm₁ hw₁
    apply ens_now
    intro at_ w₂ hm₂ hw₂
    have hready₂ := O.mono.factReady (hm₁.trans hm₂).grows hready
    apply ens_append
    · intro w₃ hm₃ hw₃ ch hch hok hnone hlast
      have hready₃ := O.mono.factReady hm₃.grows hready₂
      exact ⟨hw₃.sound.commit (p.minted_message fact st eventId at_),
        (@Outline.commitFact O _ _ _ _ _ _ rt.maxResults eventId at_ ch hch hw₃.sound hw₃.inv
          hready₃ hcheck hnone hlast hok).1⟩
    · -- lost the race
      intro w₃ hm₃ hw₃
      have hready₃ := O.mono.factReady hm₃.grows hready₂
      apply ens_onConflict
      · intro w₄ hm₄ hw₄ again hok hagain
        have hready₄ := O.mono.factReady hm₄.grows hready₃
        exact hretry again _ w₄ hagain hw₄ (O.refoldFact hw₄.sound hw₄.inv hready₄ hok)
      · intro w₄ hm₄ _
        exact factPost_giveUp hready₃ hm₄
    · -- unlike the ordinary loop, an error is not reconciled with the log
      intro w₃ hm₃ hw₃
      have hready₃ := O.mono.factReady hm₃.grows hready₂
      apply ens_failClosed
      intro w₄ hm₄ _
      exact factPost_giveUp hready₃ hm₄
    · -- unlike the ordinary loop, a duplicate is treated as a commit
      intro w₃ hm₃ hw₃ ch n hok hn
      have hready₃ := O.mono.factReady hm₃.grows hready₂
      have hdone := @Outline.duplicateFact O _ _ _ _ _ _ rt.maxResults _ eventId at_ ch hw₃.sound
        hw₃.inv hready₃ hcheck hn hok
      apply ens_evictWhen hw₃
      intro w₄ hm₄ _
      exact ⟨.inr ⟨rfl, O.mono.cleared hm₄.grows hdone.2⟩, O.mono.obj hm₄.grows hdone.1⟩
    · -- committed
      intro w₃ hm₃ hw₃ ch hch hok hnone hlast w₄ _ hw₄ hb
      have hready₃ := O.mono.factReady hm₃.grows hready₂
      have hdone := (@Outline.commitFact O _ _ _ _ _ _ rt.maxResults eventId at_ ch hch hw₃.sound
        hw₃.inv hready₃ hcheck hnone hlast hok).2
      apply ens_evictWhen hw₄
      intro w₅ hm₅ _
      have hgrow : Extends (w₃.broker.commit (p.message fact st eventId at_)) w₅.broker := by
        have := hm₅.grows
        rwa [hb] at this
      exact ⟨.inr ⟨rfl, O.mono.cleared hgrow hdone.2⟩, O.mono.obj hgrow hdone.1⟩

theorem ens_appendParticipationFact (hfacts : p.facts = landed ++ fact :: rest)
    (hcl : O.Cleared b₀ w.broker p landed) :
    O.Ens b₀ (O.FactAnswer b₀ p landed fact) (appendParticipationFact rt p fact) w := by
  refine ens_locked p.tenant_dotFree p.iid_dotFree (fun _ _ _ => .inl rfl)
    (fun hm hans => hans.mono hm) ?_
  intro o st w₁ hm hw hholds _ hok w₂ hm' hw₂
  have hready := O.factReady (O.mono.cleared hm.grows hcl) hfacts hw.sound hw.inv hholds
    (hw.obj_of_holds hholds) hok
  refine factLoop_induct (P := fun again => ∀ st w', O.WorldInv w' →
    O.FactReady b₀ w'.broker p landed fact st →
    O.Ens b₀ (O.FactPost b₀ p landed fact) (again st) w') ?_ _ st
    w₂ hw₂ (O.mono.factReady hm'.grows hready)
  intro retry hretry st w' hw' hready'
  exact ens_attemptFact (fun again st w hagain => hretry again hagain st w) hw' hready'

theorem ens_appendFacts : ∀ {later : Bool} {landed : List PlannedFact}
    {w : World}, p.facts = landed ++ rest → O.WorldInv w → O.Cleared b₀ w.broker p landed →
    O.Ens b₀ (fun out w' => match out with
      | some failed => failed.status = .rejected
      | none => O.Cleared b₀ w'.broker p p.facts) (appendFacts rt p later rest) w := by
  induction rest with
  | nil =>
    intro later landed w hfacts _ hcl
    have hall : p.facts = landed := by simpa using hfacts
    apply ensures_pure
    rw [hall]
    exact hcl
  | cons fact rest ih =>
    intro later landed w hfacts hw hcl
    apply ensures_bind
    apply Ensures.of_rely id ?_ (show O.discipline.Rely w w from Moves.refl w) hw
      (ens_appendParticipationFact hfacts hcl)
    intro res w₁ hm₁ hw₁ hans
    rcases hans with hrej | ⟨hacc, hcl₁⟩
    · simp only [hrej]
      exact ensures_pure rfl
    · simp only [hacc]
      exact ih (by simpa using hfacts) hw₁ hcl₁

theorem ens_handlePrivileged (hp : O.okPrivileged p) :
    O.Ens w.broker (fun res w' => O.Settled w.broker w'.broker p res) (handlePrivileged rt p) w := by
  apply ens_getState p.tenant_dotFree p.iid_dotFree
  intro res w₁ hm₁ hw₁ hres
  cases res with
  | none => exact O.refused rfl
  | some o =>
    apply ens_lock (hres o rfl)
    intro st w₂ hm₂ hw₂ hholds hok w₃ hm₃ hw₃
    have hp₃ : Points w₃ o p.key := hm₃.points (hm₂.points (hres o rfl))
    have hobj : O.Obj w₂.broker p.key st := hw₂.obj_of_holds hholds
    apply ens_unlock hp₃ (O.mono.obj hm₃.grows hobj)
    intro w₄ hm₄ hw₄
    by_cases hdiv : p.diverges st = true
    · simp only [hdiv]
      exact O.refused rfl
    · simp only [hdiv]
      have hcl : O.Cleared w.broker w₂.broker p [] :=
        O.cleared hp (hm₁.trans hm₂).grows hw₂.sound hw₂.inv hholds hobj hok (by simpa using hdiv)
      apply ensures_bind
      apply Ensures.of_rely id ?_ (show O.discipline.Rely w₄ w₄ from Moves.refl w₄) hw₄
        (ens_appendFacts (by simp) hw₄ (O.mono.cleared (hm₃.trans hm₄).grows hcl))
      intro out w₅ hm₅ hw₅ hout
      cases out with
      | some failed => exact O.refused hout
      | none =>
        apply ens_lock (hm₅.points (hm₄.points hp₃))
        intro st' w₆ hm₆ hw₆ hholds' _ w₇ hm₇ hw₇
        have hcl₇ := O.mono.cleared (hm₆.trans hm₇).grows hout
        have hobj₇ := O.mono.obj hm₇.grows (hw₆.obj_of_holds hholds')
        apply ens_unlock (hm₇.points (hm₆.points (hm₅.points (hm₄.points hp₃))))
          (O.bound hw₇.sound hw₇.inv hcl₇ hobj₇)
        intro w₈ hm₈ hw₈
        exact O.settled hw₈.sound hw₈.inv (O.mono.cleared hm₈.grows hcl₇)

end Commands

/-! ## Whole runs -/

def policy (O : Outline) : Policy Op Call World Choice Tick where
  spawn := Call.Meets O.okOrdinary O.okPrivileged
  op w₀ w op ch := O.ok w₀.broker w op ch
  tick _ t :=
    match t with
    | .forget _ => O.mayForget
    | _ => True

def Answered (O : Outline) (call : Call) (b₀ b : LogStore) (res : CommandResult) : Prop :=
  match call.request with
  | .refuse _ => True
  | .ordinary c => O.Replied b₀ b c res
  | .privileged p => O.Settled b₀ b p res

theorem Answered.mono {call : Call} {b₀ b' : LogStore} {res : CommandResult}
    (h : O.Answered call b₀ b res) (hb : Extends b b') : O.Answered call b₀ b' res := by
  unfold Answered at h ⊢
  cases hreq : call.request with
  | refuse _ => trivial
  | ordinary c =>
    rw [hreq] at h
    exact O.mono.replied hb h
  | privileged p =>
    rw [hreq] at h
    exact O.mono.settled hb h

theorem ens_handleCommand {call : Call} (hcall : O.policy.spawn call) :
    O.Ens w.broker (fun res w' => O.Answered call w.broker w'.broker res) (handleCommand call) w := by
  unfold handleCommand Answered
  simp only [policy, Call.Meets] at hcall
  cases hreq : call.request with
  | refuse _ => exact ensures_pure trivial
  | ordinary c =>
    rw [hreq] at hcall
    exact ens_handleOrdinary hcall
  | privileged p =>
    rw [hreq] at hcall
    exact ens_handlePrivileged hcall

theorem tick_keeps {t : Tick} (ht : O.policy.tick w t) (hw : O.WorldInv w)
    (hstep : machine.tick w t = some w') : Moves w w' ∧ O.WorldInv w' := by
  cases t with
  | evict r key =>
    cases hstep
    exact ⟨moves_frame_inter w (setAt w.inter r key none) w.load, hw.evict r key⟩
  | restart r =>
    cases hstep
    refine ⟨moves_frame_inter w _ _, ?_⟩
    refine hw.frame_inter ?_ ?_
    · intro r' key o ho
      by_cases hr : r' = r
      · simp [hr] at ho
      · exact hw.inter (by simpa [hr] using ho)
    · intro r' key f hf
      by_cases hr : r' = r
      · simp [hr] at hf
      · exact hw.load (by simpa [hr] using hf)
  | forget id =>
    cases hstep
    have hb : Extends w.broker (w.broker.forget id) := Extends.refl w.broker
    exact ⟨moves_frame_broker hb,
      hw.frame_broker hb (hw.sound.forget id) (O.inv_forget id ht hw.inv)⟩

variable {c : Config Ans Call World CommandResult}

theorem sound_from (O : Outline) {w₀ : World} (hstart : O.WorldInv w₀)
    (h : Reachable machine handleCommand O.policy w₀ c) :
    Extends w₀.broker c.world.broker ∧ O.WorldInv c.world ∧
      ∀ th ∈ c.pool, Extends th.born.broker c.world.broker ∧
        ∀ res, th.prog = .ret res → O.Answered th.call th.born.broker c.world.broker res := by
  have hspawn : ∀ call w, O.policy.spawn call → O.WorldInv w →
      O.Ens w.broker (fun res w' => O.Answered call w.broker w'.broker res) (handleCommand call) w :=
    fun call w hcall _ => ens_handleCommand hcall
  have htick : ∀ w t w', O.policy.tick w t → O.WorldInv w → machine.tick w t = some w' →
      Moves w w' ∧ O.WorldInv w' :=
    fun w t w' ht hw hstep => tick_keeps ht hw hstep
  have hmoves := h.rely (D := O.discipline) id hspawn htick hstart
  have hholds := h.holds (D := O.discipline) id hspawn htick hstart
    fun call w res w₁ w₂ hans hm => hans.mono hm.grows
  exact ⟨hmoves.grows, hholds.1, fun th hth => ⟨(hholds.2 th hth).1.grows, (hholds.2 th hth).2⟩⟩

theorem sound (O : Outline) (h : Reachable machine handleCommand O.policy World.start c) :
    (Sound c.world.broker ∧ O.Inv c.world.broker) ∧
      ∀ th ∈ c.pool, Extends th.born.broker c.world.broker ∧
        ∀ res, th.prog = .ret res → O.Answered th.call th.born.broker c.world.broker res := by
  rcases O.sound_from WorldInv.start h with ⟨_, hworld, hpool⟩
  exact ⟨⟨hworld.sound, hworld.inv⟩, hpool⟩

end Outline

end RelayPoint.Signaling
