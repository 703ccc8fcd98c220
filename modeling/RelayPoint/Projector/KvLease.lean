import RelayPoint.Concurrency.Pool
import RelayPoint.Journal.Register

/-!
# KvLease — the methods of `kvLease` over the bucket

Each worker has a `kvLease` of its own and calls `Acquire`, `Renew` and `Release` on it, in any order.
The methods are programs over requests to the bucket.  A request is carried out and answered, or it
fails without effect, or it is carried out and the answer is lost, or the caller gives up on it while
it is still under way.  The key may expire at any time.
-/

namespace RelayPoint.Projector
namespace KvLease

open Concurrency

structure Lease where
  holder : String
  rev : Nat
  deriving DecidableEq

inductive Err where
  | canceled
  | refused
  | failed
  deriving DecidableEq

/-! ## The bucket -/

inductive Request where
  | create (l : Lease)
  | update (l : Lease)
  | delete (l : Lease)
  deriving DecidableEq

def answered (r : Register String) :
    Option (Nat × Register String) → Except Err Nat × Register String
  | some (rev, r') => (.ok rev, r')
  | none => (.error .refused, r)

def Request.serve (r : Register String) (gap : Nat) : Request → Except Err Nat × Register String
  | .create l => answered r (r.create l.holder gap)
  | .update l => answered r (r.update l.holder l.rev gap)
  | .delete _ => (.ok (r.top + 1 + gap), r.delete gap)

structure Renewal where
  lease : Lease
  changes : List (Change String)

structure World where
  bucket : Register String
  strays : List Request
  /-- History: the leases whose update was answered with success, and the changes of the key up to
  that moment. -/
  renewals : List Renewal

def World.start : World :=
  ⟨.empty, [], []⟩

inductive Op where
  | ctxErr
  | get
  | send (q : Request)
  | pause

@[reducible] def Ans : Op → Type
  | .ctxErr => Option Err
  | .get => Except Err (String × Nat)
  | .send _ => Except Err Nat
  | .pause => Option Err

inductive Choice where
  /-- Carried out and answered; a write is numbered `gap` above the next revision. -/
  | go (gap : Nat)
  | fail
  | lost (gap : Nat)
  | late

inductive Tick where
  | expire
  | land (i gap : Nat)

def World.note (w : World) (q : Request) (answer : Except Err Nat) : List Renewal :=
  match q, answer with
  | .update l, .ok _ => w.renewals ++ [⟨l, w.bucket.changes⟩]
  | _, _ => w.renewals

def performSend (w : World) (q : Request) : Choice → Option (Except Err Nat × World)
  | .go gap =>
    let served := q.serve w.bucket gap
    some (served.1, { w with bucket := served.2, renewals := w.note q served.1 })
  | .fail => some (.error .failed, w)
  | .lost gap => some (.error .failed, { w with bucket := (q.serve w.bucket gap).2 })
  | .late => some (.error .failed, { w with strays := w.strays ++ [q] })

def performGet (w : World) : Choice → Option (Except Err (String × Nat) × World)
  | .go _ =>
    match w.bucket.entry with
    | some entry => some (.ok entry, w)
    | none => some (.error .refused, w)
  | .fail | .lost _ | .late => some (.error .failed, w)

def performCheck (w : World) : Choice → Option (Option Err × World)
  | .go _ => some (none, w)
  | .fail | .lost _ | .late => some (some .canceled, w)

def perform (w : World) : (op : Op) → Choice → Option (Ans op × World)
  | .ctxErr, ch => performCheck w ch
  | .get, ch => performGet w ch
  | .send q, ch => performSend w q ch
  | .pause, ch => performCheck w ch

def tick (w : World) : Tick → Option World
  | .expire => w.bucket.expire.map fun bucket => { w with bucket := bucket }
  | .land i gap =>
    w.strays[i]?.map fun q =>
      { w with bucket := (q.serve w.bucket gap).2, strays := w.strays.eraseIdx i }

def machine : Machine Ans World Choice Tick where
  perform := perform
  tick := tick

/-! ## The methods -/

abbrev Program (α : Type) := Prog Ans α

def ctxErr : Program (Option Err) := Prog.perform Op.ctxErr
def get : Program (Except Err (String × Nat)) := Prog.perform Op.get
def send (q : Request) : Program (Except Err Nat) := Prog.perform (Op.send q)
def pause : Program (Option Err) := Prog.perform Op.pause

def Lease.owned (l : Lease) : Except Err (String × Nat) → Option Nat
  | .ok (value, rev) => if value = l.holder then some rev else none
  | .error _ => none

/-- `Acquire`, for so many turns of its loop; `none` when it is still waiting then. -/
def acquire : Nat → Lease → Program (Option (Option Err) × Lease)
  | 0, l => return (none, l)
  | turns + 1, l => do
    match ← ctxErr with
    | some err => return (some (some err), l)
    | none =>
      match ← send (.create l) with
      | .ok rev => return (some none, { l with rev := rev })
      | .error _ =>
        match l.owned (← get) with
        | some rev => return (some none, { l with rev := rev })
        | none =>
          match ← pause with
          | some err => return (some (some err), l)
          | none => acquire turns l

def renew (l : Lease) : Program (Option Err × Lease) := do
  match ← send (.update l) with
  | .error err => return (some err, l)
  | .ok rev => return (none, { l with rev := rev })

def release (l : Lease) : Program (Option Err) := do
  match l.owned (← get) with
  | none => return none
  | some _ =>
    match ← send (.delete l) with
    | .error err => return some err
    | .ok _ => return none

inductive Method where
  | acquire (turns : Nat)
  | renew
  | release

def work : List Method → Lease → Program Lease
  | [], l => return l
  | .acquire turns :: rest, l => do
    let (_, l) ← acquire turns l
    work rest l
  | .renew :: rest, l => do
    let (_, l) ← renew l
    work rest l
  | .release :: rest, l => do
    let _ ← release l
    work rest l

structure Worker where
  holder : String
  calls : List Method

def run (worker : Worker) : Program Lease :=
  work worker.calls ⟨worker.holder, 0⟩

/-! ## Revisions that a lease remembers -/

/-- Since the write with this revision only its own holder has touched the key: nobody else has put
a value there, and it has neither expired nor been deleted. -/
def Undisturbed (holder : String) (rev : Nat) (changes : List (Change String)) : Prop :=
  ∃ before since, changes = before ++ .put holder rev :: since ∧
    ∀ c ∈ since, ∃ rev', c = .put holder rev'

def World.Knows (w : World) (l : Lease) : Prop :=
  l.rev = 0 ∨ .put l.holder l.rev ∈ w.bucket.changes

def discipline : Discipline World where
  Inv w := ∀ x ∈ w.renewals, Undisturbed x.lease.holder x.lease.rev x.changes
  Rely w w' := w.bucket.changes <+: w'.bucket.changes
  Guar w w' := w.bucket.changes <+: w'.bucket.changes
  refl _ := List.prefix_rfl
  trans := List.IsPrefix.trans

abbrev Ens {α : Type} (Q : α → World → Prop) (p : Program α) (w : World) : Prop :=
  Ensures machine (fun _ _ _ => True) discipline Q p w

section Requests

variable {w w' : World} {q : Request} {l : Lease} {gap rev : Nat}

theorem World.Knows.mono (h : w.Knows l) (hgrow : w.bucket.changes <+: w'.bucket.changes) :
    w'.Knows l :=
  h.imp_right fun hmem => hgrow.subset hmem

theorem prefix_serve (r : Register String) (gap : Nat) (q : Request) :
    r.changes <+: (q.serve r gap).2.changes := by
  cases q with
  | create l =>
    cases hc : r.create l.holder gap with
    | none => simp [Request.serve, answered, hc]
    | some out => simp [Request.serve, answered, hc, Register.create_some hc]
  | update l =>
    cases hc : r.update l.holder l.rev gap with
    | none => simp [Request.serve, answered, hc]
    | some out => simp [Request.serve, answered, hc, (Register.update_some hc).2]
  | delete l => simp [Request.serve, Register.delete]

variable {r : Register String}

theorem mem_of_created (h : ((Request.create l).serve r gap).1 = .ok rev) :
    .put l.holder rev ∈ ((Request.create l).serve r gap).2.changes := by
  cases hc : r.create l.holder gap with
  | none => simp [Request.serve, answered, hc] at h
  | some out =>
    have hrev : out.1 = rev := by simpa [Request.serve, answered, hc] using h
    simp [Request.serve, answered, hc, Register.create_some hc, hrev]

theorem mem_of_updated (h : ((Request.update l).serve r gap).1 = .ok rev) :
    .put l.holder rev ∈ ((Request.update l).serve r gap).2.changes := by
  cases hc : r.update l.holder l.rev gap with
  | none => simp [Request.serve, answered, hc] at h
  | some out =>
    have hrev : out.1 = rev := by simpa [Request.serve, answered, hc] using h
    simp [Request.serve, answered, hc, (Register.update_some hc).2, hrev]

theorem World.Knows.undisturbed (h : w.Knows l)
    (hok : ((Request.update l).serve w.bucket gap).1 = .ok rev) :
    Undisturbed l.holder l.rev w.bucket.changes := by
  cases hc : w.bucket.update l.holder l.rev gap with
  | none => simp [Request.serve, answered, hc] at hok
  | some out =>
    rcases h with hzero | hmem
    · rw [hzero, Register.update_zero] at hc
      cases hc
    · rcases Register.last_of_update hmem hc with ⟨before, heq⟩
      exact ⟨before, [], heq, by simp⟩

end Requests

/-! ## The methods, one operation at a time -/

section Rules

variable {α : Type} {Q : α → World → Prop} {w : World} {l : Lease}

theorem ens_check {op : Op} {k : Ans op → Program α}
    (hop : ∀ w₁ ch a w₂, perform w₁ op ch = some (a, w₂) → w₂ = w₁)
    (h : ∀ a w', discipline.Rely w w' → Ens Q (k a) w') : Ens Q (Prog.perform op >>= k) w := by
  apply ensures_perform
  intro w₁ hgrow hinv ch a w₂ _ hp
  obtain rfl := hop w₁ ch a w₂ hp
  exact ⟨List.prefix_rfl, hinv, h a _ hgrow⟩

theorem performCheck_world {w₁ w₂ : World} {ch : Choice} {a : Option Err}
    (h : performCheck w₁ ch = some (a, w₂)) : w₂ = w₁ := by
  cases ch <;> cases h <;> rfl

variable {k : Option Err → Program α}

theorem ens_ctxErr (h : ∀ a w', discipline.Rely w w' → Ens Q (k a) w') : Ens Q (ctxErr >>= k) w :=
  ens_check (fun _ _ _ _ hp => performCheck_world hp) h

theorem ens_pause (h : ∀ a w', discipline.Rely w w' → Ens Q (k a) w') : Ens Q (pause >>= k) w :=
  ens_check (fun _ _ _ _ hp => performCheck_world hp) h

theorem ens_get {k : Except Err (String × Nat) → Program α} (h : ∀ a w', discipline.Rely w w' →
      (∀ value rev, a = .ok (value, rev) → .put value rev ∈ w'.bucket.changes) → Ens Q (k a) w') :
    Ens Q (get >>= k) w := by
  apply ensures_perform
  intro w₁ hgrow hinv ch a w₂ _ hp
  change performGet w₁ ch = some (a, w₂) at hp
  cases ch with
  | go gap =>
    cases hentry : w₁.bucket.entry with
    | none =>
      simp only [performGet, hentry] at hp
      cases hp
      exact ⟨List.prefix_rfl, hinv, h _ _ hgrow (by simp)⟩
    | some entry =>
      simp only [performGet, hentry] at hp
      cases hp
      refine ⟨List.prefix_rfl, hinv, h _ _ hgrow ?_⟩
      intro value rev heq
      cases heq
      exact Register.mem_of_entry hentry
  | fail | lost gap | late =>
    cases hp
    exact ⟨List.prefix_rfl, hinv, h _ _ hgrow (by simp)⟩

theorem ens_send {q : Request} {k : Except Err Nat → Program α}
    (hknows : ∀ l, q = .update l → w.Knows l) (h : ∀ a w', discipline.Rely w w' →
      (∀ l rev, q = .create l ∨ q = .update l → a = .ok rev →
        .put l.holder rev ∈ w'.bucket.changes) → Ens Q (k a) w') : Ens Q (send q >>= k) w := by
  apply ensures_perform
  intro w₁ hgrow hinv ch a w₂ _ hp
  cases ch with
  | go gap =>
    cases hp
    have hserve := prefix_serve w₁.bucket gap q
    refine ⟨hserve, ?_, h _ _ (hgrow.trans hserve) ?_⟩
    · intro x hx
      cases q with
      | create l | delete l => exact hinv x hx
      | update l =>
        cases ha : ((Request.update l).serve w₁.bucket gap).1 with
        | error err => exact hinv x (by simpa [World.note, ha] using hx)
        | ok rev =>
          have hx : x ∈ w₁.renewals ∨ x = ⟨l, w₁.bucket.changes⟩ := by
            simpa [World.note, ha] using hx
          rcases hx with hx | rfl
          · exact hinv x hx
          · exact ((hknows l rfl).mono hgrow).undisturbed ha
    · rintro l rev (rfl | rfl) ha
      · exact mem_of_created ha
      · exact mem_of_updated ha
  | fail | late =>
    cases hp
    exact ⟨List.prefix_rfl, hinv, h _ _ hgrow (by simp)⟩
  | lost gap =>
    cases hp
    have hserve := prefix_serve w₁.bucket gap q
    exact ⟨hserve, hinv, h _ _ (hgrow.trans hserve) (by simp)⟩

theorem owned_some {a : Except Err (String × Nat)} {rev : Nat} (h : l.owned a = some rev) :
    a = .ok (l.holder, rev) := by
  cases a with
  | error err => cases h
  | ok entry =>
    rcases entry with ⟨value, rev'⟩
    by_cases hv : value = l.holder
    · have hrev : rev' = rev := by simpa [Lease.owned, hv] using h
      rw [hv, hrev]
    · simp [Lease.owned, hv] at h

end Rules

/-! ## The methods -/

section Methods

variable {w : World} {l : Lease}

theorem ens_acquire (turns : Nat) :
    ∀ {w : World}, w.Knows l → Ens (fun out w' => w'.Knows out.2) (acquire turns l) w := by
  induction turns with
  | zero =>
    intro w h
    exact ensures_pure h
  | succ turns ih =>
    intro w h
    apply ens_ctxErr
    intro err w₁ hgrow₁
    have h₁ := h.mono hgrow₁
    cases err with
    | some err => exact ensures_pure h₁
    | none =>
      apply ens_send (by simp)
      intro a w₂ hgrow₂ hput
      have h₂ := h₁.mono hgrow₂
      cases a with
      | ok rev => exact ensures_pure (.inr (hput l rev (.inl rfl) rfl))
      | error err =>
        apply ens_get
        intro entry w₃ hgrow₃ hentry
        have h₃ := h₂.mono hgrow₃
        cases howned : l.owned entry with
        | some rev =>
          exact ensures_pure (.inr (hentry l.holder rev (owned_some howned)))
        | none =>
          apply ens_pause
          intro err w₄ hgrow₄
          cases err with
          | some err => exact ensures_pure (h₃.mono hgrow₄)
          | none => exact ih (h₃.mono hgrow₄)

theorem ens_renew (h : w.Knows l) : Ens (fun out w' => w'.Knows out.2) (renew l) w := by
  apply ens_send
  · rintro l' heq
    cases heq
    exact h
  · intro a w₁ hgrow hput
    cases a with
    | error err => exact ensures_pure (h.mono hgrow)
    | ok rev => exact ensures_pure (.inr (hput l rev (.inr rfl) rfl))

theorem ens_release (h : w.Knows l) : Ens (fun _ w' => w'.Knows l) (release l) w := by
  apply ens_get
  intro entry w₁ hgrow _
  have h₁ := h.mono hgrow
  cases howned : l.owned entry with
  | none =>
    exact ensures_pure h₁
  | some rev =>
    apply ens_send (by simp)
    intro a w₂ hgrow₂ _
    cases a with
    | error err | ok rev => exact ensures_pure (h₁.mono hgrow₂)

theorem ens_work (calls : List Method) :
    ∀ {l : Lease} {w : World}, w.Knows l → Ens (fun _ _ => True) (work calls l) w := by
  induction calls with
  | nil =>
    intro l w _
    exact ensures_pure trivial
  | cons m rest ih =>
    intro l w h
    cases m with
    | acquire turns => exact ensures_bind ((ens_acquire turns h).mono fun _ _ h' => ih h')
    | renew => exact ensures_bind ((ens_renew h).mono fun _ _ h' => ih h')
    | release => exact ensures_bind ((ens_release h).mono fun _ _ h' => ih h')

end Methods

theorem tick_sound {w w' : World} {t : Tick} (hinv : discipline.Inv w) (h : tick w t = some w') :
    discipline.Rely w w' ∧ discipline.Inv w' := by
  cases t with
  | expire =>
    rcases Option.map_eq_some_iff.1 h with ⟨bucket, hb, rfl⟩
    refine ⟨?_, hinv⟩
    simp [discipline, Register.expire_some hb]
  | land i gap =>
    rcases Option.map_eq_some_iff.1 h with ⟨q, _, rfl⟩
    exact ⟨prefix_serve w.bucket gap q, hinv⟩

namespace Scenario

/-- The first worker creates the key, but its answer is lost; it adopts the key and renews it twice,
the second time after a request of its own that came too late.  The second worker tries meanwhile. -/
def adopted : List (Label Worker Choice Tick) :=
  [.spawn ⟨"a", [.acquire 1, .renew, .renew, .renew]⟩, .spawn ⟨"b", [.acquire 2]⟩,
    .act 0 (.go 0), .act 0 (.lost 2), .act 1 (.go 0), .act 1 (.go 0), .act 1 (.go 0),
    .act 0 (.go 0), .act 0 (.go 1), .act 0 .late, .act 0 (.go 0), .tick (.land 0 0),
    .tick .expire, .act 1 (.go 0), .act 1 (.go 0), .act 1 (.go 3)]

end Scenario

end KvLease
end RelayPoint.Projector
