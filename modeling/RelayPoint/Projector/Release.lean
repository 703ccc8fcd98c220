import RelayPoint.Concurrency.Trace
import RelayPoint.Projector.KvLease

/-!
# Release — who removes a lease from the bucket

`Release` looks at the key and deletes it in a second request, which names no revision.  Here every
request is carried out at once, if at all, and every worker has a holder id of its own.
-/

namespace RelayPoint.Projector
namespace KvLease

open Concurrency

abbrev Runner := Thread Ans Worker World Lease
abbrev Conf := Config Ans Worker World Lease
abbrev Event := Label Worker Choice Tick

/-! ## Steps -/

def Choice.prompt : Choice → Bool
  | .go _ | .fail | .lost _ => true
  | .late => false

def Op.deletes : Op → Bool
  | .send (.delete _) => true
  | .send (.create _) | .send (.update _) | .ctxErr | .get | .pause => false

def deleting {α : Type} : Program α → Bool
  | .ret _ => false
  | .call op _ => op.deletes

def Atomic (c : Conf) : Event → Prop
  | .spawn worker => worker.holder ∉ c.pool.map (·.call.holder)
  | .act _ ch => ch.prompt = true
  | .tick _ => True

def Guarded (c : Conf) : Event → Prop
  | .tick .expire => ∀ th ∈ c.pool, deleting th.prog = false
  | .tick (.land _ _) | .spawn _ | .act _ _ => True

instance (c : Conf) (e : Event) : Decidable (Atomic c e) :=
  match e with
  | .spawn worker => inferInstanceAs (Decidable (worker.holder ∉ c.pool.map (·.call.holder)))
  | .act _ ch => inferInstanceAs (Decidable (ch.prompt = true))
  | .tick _ => inferInstanceAs (Decidable True)

instance (c : Conf) (e : Event) : Decidable (Guarded c e) :=
  match e with
  | .tick .expire => inferInstanceAs (Decidable (∀ th ∈ c.pool, deleting th.prog = false))
  | .tick (.land _ _) | .spawn _ | .act _ _ => inferInstanceAs (Decidable True)

abbrev Comes (P : Conf → Event → Prop) : Conf → Prop :=
  Trace.Reaches (step machine run) (fun c e => Atomic c e ∧ P c e) ⟨World.start, []⟩

def Removes (c c' : Conf) (holder : String) : Prop :=
  (∃ rev, c.world.bucket.entry = some (holder, rev)) ∧
    ¬ ∃ rev, c'.world.bucket.entry = some (holder, rev)

def OwnRelease (c : Conf) (e : Event) (holder : String) : Prop :=
  ∃ i ch th, e = .act i ch ∧ c.pool[i]? = some th ∧ th.call.holder = holder ∧
    deleting th.prog = true

/-! ## How a worker comes to a delete -/

def Request.lease : Request → Lease
  | .create l | .update l | .delete l => l

def Signed (holder : String) : Op → Prop
  | .send q => q.lease.holder = holder
  | .ctxErr | .get | .pause => True

def FoundOwn (holder : String) : (op : Op) → Ans op → Prop
  | .get, a => ∃ rev, a = .ok (holder, rev)
  | .ctxErr, _ | .send _, _ | .pause, _ => False

/-- Requests carry the holder id of the worker, and a delete follows an answer with it. -/
def Orderly {α : Type} (holder : String) (Q : α → Prop) : Program α → Prop
  | .ret a => Q a
  | .call op next =>
    Signed holder op ∧
      ∀ a, (deleting (next a) = true → FoundOwn holder op a) ∧ Orderly holder Q (next a)

section Programs

variable {α β : Type} {holder : String} {Q : β → Prop} {R : α → Prop}
variable {p : Program α}

theorem deleting_bind {f : α → Program β} (hp : Orderly holder R p)
    (hf : ∀ a, R a → deleting (f a) = false) (h : deleting (p >>= f) = true) :
    deleting p = true := by
  cases p with
  | ret a =>
    have hdeleting : deleting (f a) = true := h
    rw [hf a hp] at hdeleting
    cases hdeleting
  | call op next => exact h

theorem orderly_bind {f : α → Program β} (hp : Orderly holder R p)
    (hf : ∀ a, R a → deleting (f a) = false ∧ Orderly holder Q (f a)) :
    Orderly holder Q (p >>= f) := by
  induction p with
  | ret a => exact (hf a hp).2
  | call op next ih =>
    refine ⟨hp.1, fun a => ⟨?_, ih a (hp.2 a).2⟩⟩
    intro hdeleting
    exact (hp.2 a).1 (deleting_bind (hp.2 a).2 (fun b hb => (hf b hb).1) hdeleting)

theorem orderly_perform {op : Op} {f : Ans op → Program β} (hop : Signed holder op)
    (hf : ∀ a, (deleting (f a) = true → FoundOwn holder op a) ∧ Orderly holder Q (f a)) :
    Orderly holder Q (Prog.perform op >>= f) :=
  ⟨hop, hf⟩

theorem orderly_step {op : Op} {f : Ans op → Program β} (hop : Signed holder op)
    (hf : ∀ a, deleting (f a) = false ∧ Orderly holder Q (f a)) :
    Orderly holder Q (Prog.perform op >>= f) := by
  refine orderly_perform hop fun a => ⟨?_, (hf a).2⟩
  intro h
  rw [(hf a).1] at h
  cases h

end Programs

section Methods

variable {l : Lease}

theorem deleting_acquire (turns : Nat) (l : Lease) : deleting (acquire turns l) = false := by
  cases turns <;> rfl

theorem orderly_acquire (turns : Nat) :
    Orderly l.holder (fun out => out.2.holder = l.holder) (acquire turns l) := by
  induction turns with
  | zero => exact rfl
  | succ turns ih =>
    refine orderly_step trivial fun err => ?_
    cases err with
    | some err => exact ⟨rfl, rfl⟩
    | none =>
      refine ⟨rfl, orderly_step rfl fun created => ?_⟩
      cases created with
      | ok rev => exact ⟨rfl, rfl⟩
      | error err =>
        refine ⟨rfl, orderly_step trivial fun entry => ?_⟩
        cases hentry : l.owned entry with
        | some rev => exact ⟨rfl, rfl⟩
        | none =>
          refine ⟨rfl, orderly_step trivial fun err => ?_⟩
          cases err with
          | some err => exact ⟨rfl, rfl⟩
          | none => exact ⟨deleting_acquire turns l, ih⟩

theorem orderly_renew : Orderly l.holder (fun out => out.2.holder = l.holder) (renew l) := by
  refine orderly_step rfl fun a => ?_
  cases a with
  | error err | ok rev => exact ⟨rfl, rfl⟩

theorem orderly_release : Orderly l.holder (fun _ => True) (release l) := by
  refine orderly_perform trivial fun entry => ?_
  cases hentry : l.owned entry with
  | none =>
    refine ⟨fun h => ?_, trivial⟩
    cases h
  | some rev =>
    refine ⟨fun _ => ⟨rev, owned_some hentry⟩, orderly_step rfl fun a => ?_⟩
    cases a with
    | error err | ok rev => exact ⟨rfl, trivial⟩

theorem orderly_work (calls : List Method) :
    ∀ l : Lease, deleting (work calls l) = false ∧
      Orderly l.holder (fun _ => True) (work calls l) := by
  induction calls with
  | nil =>
    intro l
    exact ⟨rfl, trivial⟩
  | cons m rest ih =>
    intro l
    have hrest : ∀ {holder : String} (l' : Lease), l'.holder = holder →
        deleting (work rest l') = false ∧ Orderly holder (fun _ => True) (work rest l') := by
      rintro _ l' rfl
      exact ih l'
    cases m with
    | acquire turns =>
      refine ⟨?_, orderly_bind (orderly_acquire turns) fun out hout => hrest out.2 hout⟩
      refine Bool.eq_false_iff.2 fun h => ?_
      have hfirst := deleting_bind (orderly_acquire turns) (fun out hout => (hrest out.2 hout).1) h
      rw [deleting_acquire] at hfirst
      cases hfirst
    | renew => exact ⟨rfl, orderly_bind orderly_renew fun out hout => hrest out.2 hout⟩
    | release => exact ⟨rfl, orderly_bind orderly_release fun _ _ => hrest l rfl⟩

end Methods

/-! ## What a request does to the entry -/

section Requests

variable {w w' : World} {op : Op} {ch : Choice} {a : Ans op} {holder : String} {rev gap : Nat}

theorem perform_cases (hprompt : ch.prompt = true) (h : perform w op ch = some (a, w')) :
    w'.strays = w.strays ∧
      (w'.bucket = w.bucket ∨ ∃ q gap, op = .send q ∧ w'.bucket = (q.serve w.bucket gap).2) := by
  cases op with
  | ctxErr | pause =>
    rw [performCheck_world h]
    exact ⟨rfl, .inl rfl⟩
  | get =>
    change performGet w ch = some (a, w') at h
    cases ch with
    | go gap =>
      cases hentry : w.bucket.entry with
      | none | some entry =>
        simp only [performGet, hentry] at h
        cases h
        exact ⟨rfl, .inl rfl⟩
    | fail | lost gap => cases h; exact ⟨rfl, .inl rfl⟩
    | late => cases hprompt
  | send q =>
    cases ch with
    | go gap | lost gap => cases h; exact ⟨rfl, .inr ⟨q, gap, rfl, rfl⟩⟩
    | fail => cases h; exact ⟨rfl, .inl rfl⟩
    | late => cases hprompt

theorem get_found {a : Except Err (String × Nat)} (h : perform w .get ch = some (a, w'))
    (ha : a = .ok (holder, rev)) : w'.bucket.entry = some (holder, rev) := by
  change performGet w ch = some (a, w') at h
  cases ch with
  | go gap =>
    cases hentry : w.bucket.entry with
    | none =>
      simp only [performGet, hentry] at h
      cases h
      cases ha
    | some entry =>
      simp only [performGet, hentry] at h
      cases h
      rw [hentry]
      cases ha
      rfl
  | fail | lost gap | late => cases h; cases ha

theorem entry_put (r : Register String) (value : String) (gap : Nat) :
    (r.put value gap).2.entry = some (value, r.top + 1 + gap) := by
  simp [Register.entry, Register.put]

variable {r : Register String}

theorem Undisturbed.entry_holder {value : String} {rev' : Nat}
    (h : Undisturbed value rev' r.changes) (hentry : r.entry = some (holder, rev)) :
    value = holder := by
  rcases h with ⟨before, since, hchanges, hsince⟩
  have hlast : r.changes.getLast? = some (.put holder rev) := by
    unfold Register.entry at hentry
    split at hentry
    · next hlast => cases hentry; exact hlast
    all_goals cases hentry
  rcases List.eq_nil_or_concat' since with rfl | ⟨init, c, rfl⟩
  · rw [hchanges] at hlast
    simp at hlast
    exact hlast.1
  · rcases hsince c (by simp) with ⟨rev'', rfl⟩
    have hsplit : r.changes = (before ++ .put value rev' :: init) ++ [.put value rev''] := by
      simp [hchanges]
    rw [hsplit, List.getLast?_concat] at hlast
    cases hlast
    rfl

theorem entry_serve {q : Request} (hentry : r.entry = some (holder, rev))
    (hupdate : ∀ l rev', q = .update l → (q.serve r gap).1 = .ok rev' → l.holder = holder) :
    (∃ rev', (q.serve r gap).2.entry = some (holder, rev')) ∨ ∃ l, q = .delete l := by
  cases q with
  | create l =>
    have hrefused : r.create l.holder gap = none := by simp [Register.create, hentry]
    exact .inl ⟨rev, by simpa [Request.serve, answered, hrefused] using hentry⟩
  | update l =>
    left
    by_cases hlatest : r.latest = some l.rev
    · have hserve : (Request.update l).serve r gap =
          (.ok (r.put l.holder gap).1, (r.put l.holder gap).2) := by
        simp [Request.serve, answered, Register.update, hlatest]
      have hholder := hupdate l _ rfl (by rw [hserve])
      rw [hserve, ← hholder]
      exact ⟨_, entry_put r l.holder gap⟩
    · have hrefused : r.update l.holder l.rev gap = none := by simp [Register.update, hlatest]
      exact ⟨rev, by simpa [Request.serve, answered, hrefused] using hentry⟩
  | delete l => exact .inr ⟨l, rfl⟩

end Requests

/-! ## Runs -/

section Runs

variable {c c' : Conf} {e : Event} {holder : String} {rev : Nat}
variable {P : Conf → Event → Prop}

theorem reachable_of_comes (h : Comes P c) : Reachable machine run Policy.free World.start c := by
  induction h with
  | start => exact .start
  | @tail c c' e _ _ hstep ih =>
    refine ih.tail ?_ hstep
    cases e with
    | spawn worker | tick t => trivial
    | act i ch =>
      rcases step_act hstep with ⟨th, op, next, a, w, hi, hp, _, _⟩
      simp [Allowed, hi, hp]

abbrev Knowing (c : Conf) : Prop :=
  Sound machine Policy.free discipline (fun _ _ _ _ => True) c

theorem knowing_of_comes (h : Comes P c) : Knowing c := by
  refine (reachable_of_comes h).sound id ?_ ?_ ?_
  · intro worker w _ _
    exact ens_work worker.calls (.inl rfl)
  · intro w t w' _ hinv ht
    exact tick_sound hinv ht
  · simp [discipline, World.start]

theorem Knowing.update_own (h : Knowing c) {th : Runner} (hth : th ∈ c.pool)
    {l : Lease} {next : Except Err Nat → Program Lease} (hp : th.prog = .call (.send (.update l)) next)
    {gap rev' : Nat} (hok : ((Request.update l).serve c.world.bucket gap).1 = .ok rev')
    (hentry : c.world.bucket.entry = some (holder, rev)) : l.holder = holder := by
  rcases h.2 th hth with ⟨_, w, hw, hens⟩
  rw [hp] at hens
  -- were the update answered, the history would say that the key is undisturbed
  rcases hens c.world hw h.1 (.go gap) _ _ trivial rfl with ⟨_, hinv, _⟩
  have hnoted : (⟨l, c.world.bucket.changes⟩ : Renewal) ∈ c.world.note (.update l)
      ((Request.update l).serve c.world.bucket gap).1 := by
    rw [hok]
    simp [World.note]
  exact (hinv _ hnoted).entry_holder hentry

structure Settled (c : Conf) : Prop where
  strays : c.world.strays = []
  distinct : ∀ (i j : Nat) (th th' : Runner), c.pool[i]? = some th → c.pool[j]? = some th' →
    th.call.holder = th'.call.holder → i = j
  orderly : ∀ th ∈ c.pool, Orderly th.call.holder (fun _ => True) th.prog
  holding : ∀ (i : Nat) (th : Runner), c.pool[i]? = some th → deleting th.prog = true →
    ∃ rev, c.world.bucket.entry = some (th.call.holder, rev)

theorem Settled.entry_step (h : Settled c) (hknow : Knowing c) (hatomic : Atomic c e)
    (hstep : step machine run c e = some c') (hentry : c.world.bucket.entry = some (holder, rev)) :
    (∃ rev', c'.world.bucket.entry = some (holder, rev')) ∨ e = .tick .expire ∨
      OwnRelease c e holder := by
  cases e with
  | spawn worker =>
    cases hstep
    exact .inl ⟨rev, hentry⟩
  | tick t =>
    cases t with
    | expire => exact .inr (.inl rfl)
    | land i gap =>
      rcases step_tick hstep with ⟨w, ht, _⟩
      have hland : tick c.world (.land i gap) = some w := ht
      simp [tick, h.strays] at hland
  | act i ch =>
    rcases step_act hstep with ⟨th, op, next, a, w, hi, hp, hperform, rfl⟩
    have hth := List.mem_of_getElem? hi
    rcases (perform_cases hatomic hperform).2 with hsame | ⟨q, gap, rfl, hserve⟩
    · exact .inl ⟨rev, by rw [hsame, hentry]⟩
    · have hown : ∀ l rev', q = .update l → (q.serve c.world.bucket gap).1 = .ok rev' →
          l.holder = holder := by
        rintro l rev' rfl hok
        exact hknow.update_own hth hp hok hentry
      rcases entry_serve hentry hown with hkept | ⟨l, rfl⟩
      · rw [← hserve] at hkept
        exact .inl hkept
      · have hdeleting : deleting th.prog = true := by
          rw [hp]
          rfl
        rcases h.holding i th hi hdeleting with ⟨rev', hheld⟩
        have hholder : th.call.holder = holder := by
          rw [hentry] at hheld
          exact (Prod.mk.inj (Option.some.inj hheld)).1.symm
        exact .inr (.inr ⟨i, ch, th, rfl, hi, hholder, hdeleting⟩)

theorem Settled.spawn (h : Settled c) {worker : Worker}
    (hnew : worker.holder ∉ c.pool.map (·.call.holder)) :
    Settled { c with pool := c.pool ++ [⟨worker, c.world, run worker⟩] } := by
  have hother : ∀ (i : Nat) (th : Runner), c.pool[i]? = some th → th.call.holder ≠ worker.holder := by
    intro i th hi heq
    exact hnew (heq ▸ List.mem_map_of_mem (List.mem_of_getElem? hi))
  have hcases : ∀ (i : Nat) (th : Runner), (c.pool ++ [⟨worker, c.world, run worker⟩])[i]? = some th →
      c.pool[i]? = some th ∨ (i = c.pool.length ∧ th = ⟨worker, c.world, run worker⟩) := by
    intro i th hi
    rcases Nat.lt_or_ge i c.pool.length with hlt | hge
    · exact .inl (by rwa [List.getElem?_append_left hlt] at hi)
    · rw [List.getElem?_append_right hge] at hi
      rcases List.getElem?_eq_some_iff.1 hi with ⟨hlt, hth⟩
      have hzero : i - c.pool.length = 0 := by simpa using hlt
      exact .inr ⟨by omega, by simpa [hzero] using hth.symm⟩
  refine ⟨h.strays, ?_, ?_, ?_⟩
  · intro i j th th' hi hj heq
    rcases hcases i th hi with hi | ⟨rfl, rfl⟩
    · rcases hcases j th' hj with hj | ⟨rfl, rfl⟩
      · exact h.distinct i j th th' hi hj heq
      · exact absurd heq (hother i th hi)
    · rcases hcases j th' hj with hj | ⟨rfl, _⟩
      · exact absurd heq.symm (hother j th' hj)
      · rfl
  · intro th hth
    rcases List.mem_append.1 hth with hth | hth
    · exact h.orderly th hth
    · rw [List.mem_singleton.1 hth]
      exact (orderly_work worker.calls ⟨worker.holder, 0⟩).2
  · intro i th hi hdeleting
    rcases hcases i th hi with hi | ⟨_, rfl⟩
    · exact h.holding i th hi hdeleting
    · have hstart : deleting (run worker) = false := (orderly_work worker.calls _).1
      rw [hstart] at hdeleting
      cases hdeleting

theorem Settled.act (h : Settled c) (hknow : Knowing c) {i : Nat} {ch : Choice}
    (hprompt : ch.prompt = true) (hstep : step machine run c (.act i ch) = some c') : Settled c' := by
  have hentry : ∀ {holder : String} {rev : Nat}, c.world.bucket.entry = some (holder, rev) →
      (∃ rev', c'.world.bucket.entry = some (holder, rev')) ∨ (.act i ch : Event) = .tick .expire ∨
        OwnRelease c (.act i ch) holder := fun hheld => h.entry_step hknow hprompt hstep hheld
  rcases step_act hstep with ⟨th, op, next, a, w, hi, hp, hperform, rfl⟩
  have hlt := (List.getElem?_eq_some_iff.1 hi).1
  have horderly : Orderly th.call.holder (fun _ => True) (.call op next) :=
    hp ▸ h.orderly th (List.mem_of_getElem? hi)
  -- the thread that moves keeps its place and its holder id
  have hcases : ∀ (j : Nat) (th' : Runner), (c.pool.set i { th with prog := next a })[j]? = some th' →
      (j = i ∧ th' = { th with prog := next a }) ∨ (j ≠ i ∧ c.pool[j]? = some th') := by
    intro j th' hj
    by_cases hji : i = j
    · subst hji
      rw [List.getElem?_set_self hlt] at hj
      exact .inl ⟨rfl, (Option.some.inj hj).symm⟩
    · rw [List.getElem?_set_ne hji] at hj
      exact .inr ⟨fun heq => hji heq.symm, hj⟩
  have hsame : ∀ (j : Nat) (th' : Runner),
      (c.pool.set i { th with prog := next a })[j]? = some th' →
      ∃ th₀ : Runner, c.pool[j]? = some th₀ ∧ th₀.call = th'.call := by
    intro j th' hj
    rcases hcases j th' hj with ⟨rfl, rfl⟩ | ⟨_, hj⟩
    · exact ⟨th, hi, rfl⟩
    · exact ⟨th', hj, rfl⟩
  refine ⟨(perform_cases hprompt hperform).1.trans h.strays, ?_, ?_, ?_⟩
  · intro j k th₁ th₂ hj hk heq
    rcases hsame j th₁ hj with ⟨th₁', hj', hcall₁⟩
    rcases hsame k th₂ hk with ⟨th₂', hk', hcall₂⟩
    exact h.distinct j k th₁' th₂' hj' hk' (by rw [hcall₁, hcall₂, heq])
  · intro th' hth'
    rcases List.mem_or_eq_of_mem_set hth' with hth' | rfl
    · exact h.orderly th' hth'
    · exact (horderly.2 a).2
  · intro j th' hj hdeleting
    rcases hcases j th' hj with ⟨rfl, rfl⟩ | ⟨hji, hj⟩
    · -- it has just found its own entry
      have hfound := (horderly.2 a).1 hdeleting
      cases op with
      | get =>
        rcases hfound with ⟨rev, ha⟩
        exact ⟨rev, get_found hperform ha⟩
      | ctxErr | send q | pause => exact hfound.elim
    · -- nobody else can touch the entry
      rcases h.holding j th' hj hdeleting with ⟨rev, hheld⟩
      rcases hentry hheld with hkept | hexpired | ⟨i', ch', th₀, heq, hi', hholder, _⟩
      · exact hkept
      · cases hexpired
      · cases heq
        exact absurd (h.distinct _ _ th' th₀ hj hi' hholder.symm) hji

theorem Settled.tick (h : Settled c) {t : Tick} (hguarded : Guarded c (.tick t))
    (hstep : step machine run c (.tick t) = some c') : Settled c' := by
  rcases step_tick hstep with ⟨w, ht, rfl⟩
  have htick : KvLease.tick c.world t = some w := ht
  cases t with
  | expire =>
    rcases Option.map_eq_some_iff.1 htick with ⟨bucket, _, rfl⟩
    refine ⟨h.strays, h.distinct, h.orderly, ?_⟩
    intro i th hi hdeleting
    rw [hguarded th (List.mem_of_getElem? hi)] at hdeleting
    cases hdeleting
  | land i gap => simp [KvLease.tick, h.strays] at htick

theorem settled_of_comes (h : Comes Guarded c) : Settled c := by
  induction h with
  | start => exact ⟨rfl, by simp, by simp, by simp⟩
  | @tail c c' e hc hallowed hstep ih =>
    cases e with
    | spawn worker =>
      cases hstep
      exact ih.spawn hallowed.1
    | act i ch => exact ih.act (knowing_of_comes hc) hallowed.1 hstep
    | tick t => exact ih.tick hallowed.2 hstep

end Runs

/-- As long as the key does not expire between the two requests of a `Release` that has found its own
entry, an entry is removed by expiry or by a `Release` of its own holder, and by nothing else. -/
theorem lease_removed_by_its_holder {c c' : Conf} {e : Event} {holder : String}
    (h : Comes Guarded c) (hatomic : Atomic c e) (hstep : step machine run c e = some c')
    (hremoves : Removes c c' holder) : e = .tick .expire ∨ OwnRelease c e holder := by
  rcases hremoves with ⟨⟨rev, hentry⟩, hgone⟩
  rcases (settled_of_comes h).entry_step (knowing_of_comes h) hatomic hstep hentry with
    hkept | hexpired | hown
  · exact absurd hkept hgone
  · exact .inl hexpired
  · exact .inr hown

namespace Scenario

/-- The first worker acquires the lease and has looked at the key for its `Release`. -/
def looked : List Event :=
  [.spawn ⟨"a", [.acquire 1, .release]⟩, .spawn ⟨"b", [.acquire 1]⟩, .act 0 (.go 0), .act 0 (.go 0),
    .act 0 (.go 0)]

def overtaken : List Event :=
  looked ++ [.tick .expire, .act 1 (.go 0), .act 1 (.go 0)]

end Scenario

open Scenario in
theorem lease_removed_by_its_holder_released :
    ∃ c c' : Conf, Comes Guarded c ∧ step machine run c (.act 0 (.go 0)) = some c' ∧
      Removes c c' "a" ∧ OwnRelease c (.act 0 (.go 0)) "a" := by
  have hrun : (Trace.execute (step machine run) (fun c e => Atomic c e ∧ Guarded c e) looked
      ⟨World.start, []⟩).map (fun c => (c.world.bucket.entry,
        (step machine run c (.act 0 (.go 0))).map fun c' => c'.world.bucket.entry)) =
      some (some ("a", 1), some none) := by
    decide +kernel
  rcases Trace.exists_of_execute hrun with ⟨c, hc, hvalue⟩
  rcases Prod.mk.inj hvalue with ⟨hentry, hnext⟩
  rcases Option.map_eq_some_iff.1 hnext with ⟨c', hstep, hgone⟩
  have hremoves : Removes c c' "a" := ⟨⟨1, hentry⟩, by simp [hgone]⟩
  rcases lease_removed_by_its_holder hc (e := .act 0 (.go 0)) rfl hstep hremoves with hexpire | hown
  · cases hexpire
  · exact ⟨c, c', hc, hstep, hremoves, hown⟩

open Scenario in
/-- A worker that was about to release its own entry deletes the one of its successor. -/
theorem lease_removed_by_another :
    ∃ c c' : Conf, Comes (fun _ _ => True) c ∧ Atomic c (.act 0 (.go 0)) ∧
      step machine run c (.act 0 (.go 0)) = some c' ∧ Removes c c' "b" ∧
      ¬ OwnRelease c (.act 0 (.go 0)) "b" := by
  have hrun : (Trace.execute (step machine run) (fun c e => Atomic c e ∧ True) overtaken
      ⟨World.start, []⟩).map (fun c => (c.world.bucket.entry, c.pool.map (·.call.holder),
        (step machine run c (.act 0 (.go 0))).map fun c' => c'.world.bucket.entry)) =
      some (some ("b", 2), ["a", "b"], some none) := by
    decide +kernel
  rcases Trace.exists_of_execute hrun with ⟨c, hc, hvalue⟩
  simp only [Prod.mk.injEq] at hvalue
  rcases hvalue with ⟨hentry, hholders, hnext⟩
  rcases Option.map_eq_some_iff.1 hnext with ⟨c', hstep, hgone⟩
  refine ⟨c, c', hc, rfl, hstep, ⟨⟨2, hentry⟩, by simp [hgone]⟩, ?_⟩
  rintro ⟨i, ch, th, heq, hi, hholder, _⟩
  cases heq
  have hfirst : (c.pool.map (·.call.holder))[0]? = some th.call.holder := by simp [hi]
  rw [hholders, hholder] at hfirst
  exact absurd hfirst (by decide)

end KvLease
end RelayPoint.Projector
