import RelayPoint.Projector.Lease

/-!
# Tenure — who holds the leader key, and until when

An entry of the bucket that has not expired is followed by entries of the same holder only: a create
needs the key to be free, an update the revision of its own last write.  This is `Tenure`, which the
deletes of other workers could break.  A worker whose fence is open has an entry in the bucket that
outlives the attempt which decides over the next renewal; this is `Active.Sound`.
-/

namespace RelayPoint.Projector
namespace Lease

/-! ## Entries of the bucket -/

namespace Bucket

variable {b b' : Bucket} {ttl now : Int} {holder value : String} {rev : Nat} {m : Message}

def Extends (b b' : Bucket) : Prop :=
  b.messages <+: b'.messages

theorem Extends.mem (hext : b.Extends b') (h : m ∈ b.messages) : m ∈ b'.messages :=
  hext.subset h

def Wrote (b : Bucket) (holder : String) (rev : Nat) (m : Message) : Prop :=
  b.message? rev = some m ∧ m.holder = holder ∧ m.deleted = false

theorem Wrote.mem (h : b.Wrote holder rev m) : m ∈ b.messages := by
  rcases h with ⟨hrev, _, _⟩
  cases rev with
  | zero => cases hrev
  | succ i => exact List.mem_of_getElem? hrev

theorem Wrote.mono (hext : b.Extends b') (h : b.Wrote holder rev m) : b'.Wrote holder rev m := by
  rcases h with ⟨hrev, hholder, hput⟩
  refine ⟨?_, hholder, hput⟩
  rcases hext with ⟨rest, hrest⟩
  cases rev with
  | zero => cases hrev
  | succ i =>
    have hlt : i < b.messages.length := (List.getElem?_eq_some_iff.1 hrev).1
    rw [message?, ← hrest, List.getElem?_append_left hlt]
    exact hrev

theorem entry_eq_some (h : b.entry ttl now = some (value, rev)) :
    ∃ m, b.messages.getLast? = some m ∧ b.Wrote value rev m ∧ now < m.time + ttl ∧
      rev = b.messages.length := by
  unfold entry at h
  split at h
  · cases h
  · next m hlast =>
      split at h
      · cases h
      · next hfresh =>
          rw [not_or, not_le] at hfresh
          rcases Prod.mk.inj (Option.some.inj h) with ⟨hvalue, hrev⟩
          refine ⟨m, hlast, ⟨?_, hvalue, by simpa using hfresh.1⟩, hfresh.2, hrev.symm⟩
          rw [List.getLast?_eq_getElem?] at hlast
          subst hrev
          have hlt := (List.getElem?_eq_some_iff.1 hlast).1
          rw [show b.messages.length = (b.messages.length - 1) + 1 by omega]
          exact hlast

theorem entry_of_last (hlast : b.messages.getLast? = some m) (hput : m.deleted = false)
    (hfresh : now < m.time + ttl) : b.entry ttl now = some (m.holder, b.messages.length) := by
  have hnot : ¬ (m.deleted = true ∨ m.time + ttl ≤ now) := by
    rw [not_or]
    exact ⟨by simp [hput], by omega⟩
  simp [entry, hlast, hnot]

theorem wrote_put (hb : b'.messages = b.messages ++ [m]) (hput : m.deleted = false) :
    b'.Wrote m.holder (b.messages.length + 1) m := by
  refine ⟨?_, rfl, hput⟩
  rw [message?, hb]
  exact List.getElem?_concat_length

inductive Served (b : Bucket) (ttl now : Int) (holder : String) :
    Request → Answer → Bucket → Prop where
  | refused (request : Request) : Served b ttl now holder request .refused b
  | found {value : String} {rev : Nat} {m : Message} :
      b.Wrote value rev m → Served b ttl now holder .get (.entry value rev) b
  | created {b' : Bucket} :
      b.entry ttl now = none → b'.messages = b.messages ++ [⟨holder, false, now⟩] →
      Served b ttl now holder .create (.revision (b.messages.length + 1)) b'
  | updated {b' : Bucket} {value : String} {rev : Nat} :
      b.entry ttl now = some (value, rev) → b'.messages = b.messages ++ [⟨holder, false, now⟩] →
      Served b ttl now holder (.update rev) (.revision (b.messages.length + 1)) b'
  | deleted {b' : Bucket} :
      b'.messages = b.messages ++ [⟨holder, true, now⟩] →
      Served b ttl now holder .delete .deleted b'

theorem served (b : Bucket) (ttl now : Int) (holder : String) (request : Request) :
    Served b ttl now holder request (b.serve ttl now holder request).1
      (b.serve ttl now holder request).2 := by
  cases request with
  | create =>
    cases hentry : b.entry ttl now with
    | none =>
      simp only [serve, hentry]
      exact Served.created hentry rfl
    | some e => simpa [serve, hentry] using Served.refused Request.create
  | get =>
    cases hentry : b.entry ttl now with
    | none => simpa [serve, hentry] using Served.refused Request.get
    | some e =>
      rcases entry_eq_some hentry with ⟨m, _, hwrote, _, _⟩
      simpa [serve, hentry] using Served.found hwrote
  | update expected =>
    cases hentry : b.entry ttl now with
    | none => simpa [serve, hentry] using Served.refused (Request.update expected)
    | some e =>
      rcases e with ⟨value, rev⟩
      by_cases hrev : rev = expected
      · subst hrev
        simp only [serve, hentry]
        exact Served.updated hentry rfl
      · simpa [serve, hentry, hrev] using Served.refused (Request.update expected)
  | delete => exact Served.deleted rfl

theorem Served.extends {request : Request} {answer : Answer}
    (h : Served b ttl now holder request answer b') : b.Extends b' := by
  cases h with
  | refused | found _ => exact List.prefix_rfl
  | created _ hb | updated _ hb | deleted hb => exact ⟨_, hb.symm⟩

end Bucket

/-! ## Tenure -/

/-- Nothing is from the future, and the last message after an entry that has not expired is an entry
of the same holder, unless that holder has let go of the key. -/
structure Tenure (b : Bucket) (ttl now : Int) (Released : String → Prop) : Prop where
  past : ∀ m ∈ b.messages, m.time ≤ now
  kept : ∀ m ∈ b.messages, m.deleted = false → now < m.time + ttl → ¬ Released m.holder →
    ∃ l, b.messages.getLast? = some l ∧ l.deleted = false ∧ l.holder = m.holder ∧ m.time ≤ l.time

namespace Tenure

variable {b b' : Bucket} {ttl now : Int} {Released : String → Prop}

theorem entry (h : Tenure b ttl now Released) {m : Message} (hm : m ∈ b.messages)
    (hput : m.deleted = false) (hfresh : now < m.time + ttl) (hheld : ¬ Released m.holder) :
    b.entry ttl now = some (m.holder, b.messages.length) := by
  rcases h.kept m hm hput hfresh hheld with ⟨l, hlast, hlput, hholder, htime⟩
  rw [← hholder]
  exact Bucket.entry_of_last hlast hlput (by omega)

theorem pass (h : Tenure b ttl now Released) (d : Nat) : Tenure b ttl (now + d) Released where
  past := fun m hm => by
    have := h.past m hm
    omega
  kept := fun m hm hput hfresh hheld => h.kept m hm hput (by omega) hheld

theorem release (h : Tenure b ttl now Released) {Released' : String → Prop}
    (hrel : ∀ holder, Released holder → Released' holder) : Tenure b ttl now Released' where
  past := h.past
  kept := fun m hm hput hfresh hheld =>
    h.kept m hm hput hfresh fun hreleased => hheld (hrel _ hreleased)

theorem append (h : Tenure b ttl now Released) {n : Message}
    (hb : b'.messages = b.messages ++ [n]) (hn : n.time = now)
    (hholder : ∀ m ∈ b.messages, m.deleted = false → now < m.time + ttl → ¬ Released m.holder →
      n.deleted = false ∧ n.holder = m.holder) : Tenure b' ttl now Released where
  past := by
    intro m hm
    rw [hb, List.mem_append, List.mem_singleton] at hm
    rcases hm with hm | rfl
    · exact h.past m hm
    · exact hn.le
  kept := by
    intro m hm hput hfresh hheld
    rw [hb, List.mem_append, List.mem_singleton] at hm
    refine ⟨n, by rw [hb, List.getLast?_concat], ?_⟩
    rcases hm with hm | rfl
    · rcases hholder m hm hput hfresh hheld with ⟨hnput, hsame⟩
      exact ⟨hnput, hsame, hn ▸ h.past m hm⟩
    · exact ⟨hput, rfl, le_rfl⟩

theorem serve {holder : String} {request : Request} {answer : Answer}
    (h : Tenure b ttl now Released)
    (hupdate : ∀ rev, request = .update rev → ∃ m, b.Wrote holder rev m)
    (hdelete : request = .delete → Released holder ∧
      ∀ value rev, b.entry ttl now = some (value, rev) → value = holder)
    (hserved : Bucket.Served b ttl now holder request answer b') : Tenure b' ttl now Released := by
  cases hserved with
  | refused | found _ => exact h
  | created hfree hb =>
    refine h.append hb rfl ?_
    intro m hm hput hfresh hheld
    rw [h.entry hm hput hfresh hheld] at hfree
    cases hfree
  | @updated b' value rev hentry hb =>
    refine h.append hb rfl ?_
    intro m hm hput hfresh hheld
    -- the revision is the last one, so its writer is the holder of the key
    rcases hupdate rev rfl with ⟨mine, hmine⟩
    rcases Bucket.entry_eq_some hentry with ⟨l, _, hwrote, _, _⟩
    have hsame : mine = l := Option.some.inj (hmine.1.symm.trans hwrote.1)
    have hvalue : (value, rev) = (m.holder, b.messages.length) :=
      Option.some.inj (hentry.symm.trans (h.entry hm hput hfresh hheld))
    refine ⟨rfl, ?_⟩
    calc
      holder = mine.holder := hmine.2.1.symm
      _ = l.holder := by rw [hsame]
      _ = value := hwrote.2.1
      _ = m.holder := (Prod.mk.inj hvalue).1
  | deleted hb =>
    rcases hdelete rfl with ⟨hreleased, hown⟩
    refine h.append hb rfl ?_
    intro m hm hput hfresh hheld
    have hholder := hown _ _ (h.entry hm hput hfresh hheld)
    exact absurd (hholder ▸ hreleased) hheld

end Tenure

/-! ## What a worker knows -/

def Phase.Released : Phase → Prop
  | .checking _ => True
  | .deleting _ => True
  | .stopped => True
  | _ => False

def Call.Sound (b : Bucket) (holder : String) : Call → Prop
  | .answered (.revision rev) => ∃ m, b.Wrote holder rev m
  | .answered (.entry value rev) => ∃ m, b.Wrote value rev m
  | _ => True

def Bucket.Leased (b : Bucket) (ttl : Int) (holder : String) (t : Int) : Prop :=
  ∃ m ∈ b.messages, m.holder = holder ∧ m.deleted = false ∧ t < m.time + ttl

namespace Active

def due (now : Int) (a : Active) : Int :=
  match a.renewal with
  | .waiting => if a.ticker.buffered then now else a.ticker.next
  | .attempting _ start _ => start
  | _ => now

def Renewing (c : Timing) (b : Bucket) (now : Int) (holder : String) (a : Active) : Prop :=
  match a.renewal with
  | .waiting => now ≤ a.ticker.next
  | .attempting attempt start call =>
    now ≤ a.ticker.next ∧ start ≤ now ∧ now ≤ start + c.attemptLimit ∧
      (a.ticker.buffered = false → a.ticker.next ≤ start + c.leaseRenew.toInt) ∧
      (0 < attempt → ¬ a.fence.Open) ∧ call.Sound b holder ∧
      ∀ rev, call = .answered (.revision rev) →
        ∀ t < start + c.leaseTTL.toInt, b.Leased c.leaseTTL.toInt holder t
  | .backingOff _ _ => now ≤ a.ticker.next ∧ ¬ a.fence.Open
  | .ended => ¬ a.fence.Open

structure Sound (c : Timing) (b : Bucket) (now : Int) (holder : String) (done : Bool)
    (a : Active) : Prop where
  parent : done = true → a.fence.parentDone = true
  rev : ∃ m, b.Wrote holder a.rev m
  next : a.ticker.next ≤ now + c.leaseRenew.toInt
  renewing : a.Renewing c b now holder
  /-- As long as contexts are handed out, the lease outlives the attempt that is due. -/
  covered : a.fence.Open → b.Leased c.leaseTTL.toInt holder (a.due now + c.attemptLimit)

end Active

def Phase.Sound (c : Timing) (b : Bucket) (now : Int) (holder : String) (done : Bool) :
    Phase → Prop
  | .creating call => call.Sound b holder
  | .looking call => call.Sound b holder
  | .hydrating rev => ∃ m, b.Wrote holder rev m
  | .active a => a.Sound c b now holder done
  | _ => True

section Mono

variable {c : Timing} {b b' : Bucket} {now : Int} {holder : String} {done : Bool}

theorem Bucket.Leased.mono (hext : b.Extends b') {ttl t : Int} (h : b.Leased ttl holder t) :
    b'.Leased ttl holder t := by
  rcases h with ⟨m, hm, hput⟩
  exact ⟨m, hext.mem hm, hput⟩

theorem Call.Sound.mono (hext : b.Extends b') {call : Call} (h : call.Sound b holder) :
    call.Sound b' holder := by
  cases call with
  | sent => trivial
  | answered answer =>
    cases answer with
    | revision rev | entry value rev => exact h.imp fun _ hm => hm.mono hext
    | deleted | refused => trivial

theorem Active.Renewing.mono (hext : b.Extends b') {a : Active} (h : a.Renewing c b now holder) :
    a.Renewing c b' now holder := by
  unfold Active.Renewing at h ⊢
  split
  · next hr => simpa [hr] using h
  · next attempt start call hr =>
      rw [hr] at h
      rcases h with ⟨hnow, hstart, hlimit, hnext, hpaused, hcall, hleased⟩
      exact ⟨hnow, hstart, hlimit, hnext, hpaused, hcall.mono hext,
        fun rev hrev t ht => (hleased rev hrev t ht).mono hext⟩
  · next hr => simpa [hr] using h
  · next hr => simpa [hr] using h

theorem Active.Sound.mono (hext : b.Extends b') {a : Active} (h : a.Sound c b now holder done) :
    a.Sound c b' now holder done where
  parent := h.parent
  rev := h.rev.imp fun _ hm => hm.mono hext
  next := h.next
  renewing := h.renewing.mono hext
  covered := fun hopen => (h.covered hopen).mono hext

theorem Phase.Sound.mono (hext : b.Extends b') {p : Phase} (h : p.Sound c b now holder done) :
    p.Sound c b' now holder done := by
  cases p with
  | creating call | looking call => exact Call.Sound.mono hext h
  | hydrating rev => exact h.imp fun _ hm => hm.mono hext
  | active a => exact Active.Sound.mono hext h
  | _ => trivial

end Mono

/-! ## Steps of one worker -/

/-- The lease is long enough for the wait until a tick and an attempt, and for two attempts. -/
structure Roomy (c : Timing) : Prop where
  renew_nonneg : 0 ≤ c.leaseRenew.toInt
  attempt : c.leaseRenew.toInt + c.attemptLimit < c.leaseTTL.toInt
  attempts : 2 * c.attemptLimit < c.leaseTTL.toInt

section Steps

variable {c : Timing} {b b' : Bucket} {now : Int} {holder : String} {done : Bool} {a : Active}

theorem attemptLimit_nonneg (c : Timing) : 0 ≤ c.attemptLimit :=
  le_max_left _ _

theorem Active.Sound.pass (h : a.Sound c b now holder done) {d : Nat}
    (hpermits : a.permits c (now + d) = true) : a.Sound c b (now + d) holder done := by
  rcases h with ⟨hparent, hrev, hnext, hrenewing, hcovered⟩
  unfold Active.Renewing at hrenewing
  unfold Active.permits at hpermits
  refine ⟨hparent, hrev, by omega, ?_, ?_⟩
  · unfold Active.Renewing
    split at hpermits <;> simp only [Bool.and_eq_true, decide_eq_true_eq] at hpermits
    · next hr =>
        simp only [hr] at hrenewing ⊢
        exact hpermits.2
    · next hr =>
        simp only [hr] at hrenewing ⊢
        rcases hrenewing with ⟨_, hstart, _, hrest⟩
        exact ⟨hpermits.2, by omega, hpermits.1, hrest⟩
    · next hr =>
        simp only [hr] at hrenewing ⊢
        exact ⟨hpermits.2, hrenewing.2⟩
    · next hr => simpa only [hr] using hrenewing
  · intro hopen
    have hleased := hcovered hopen
    unfold Active.due at hleased ⊢
    split at hpermits <;> simp only [Bool.and_eq_true, Bool.not_eq_true'] at hpermits
    · next hr => simpa [hr, hpermits.1] using hleased
    · next hr => simpa [hr] using hleased
    · next hr =>
        simp only [hr] at hrenewing
        exact absurd hopen hrenewing.2
    · next hr =>
        simp only [hr] at hrenewing
        exact absurd hopen hrenewing

theorem Active.Sound.leased (h : a.Sound c b now holder done) (hopen : a.fence.Open) :
    b.Leased c.leaseTTL.toInt holder now := by
  rcases h.covered hopen with ⟨m, hm, hholder, hput, hlate⟩
  refine ⟨m, hm, hholder, hput, ?_⟩
  have hlimit := attemptLimit_nonneg c
  have hrenewing := h.renewing
  unfold Active.Renewing at hrenewing
  unfold Active.due at hlate
  split at hrenewing
  · next hr =>
      simp only [hr] at hlate
      split at hlate <;> omega
  · next hr =>
      simp only [hr] at hlate
      omega
  · exact absurd hopen hrenewing.2
  · exact absurd hopen hrenewing

variable {rev : Nat} {p : Phase} {request : Request} {answer : Answer}

theorem Active.sound_new {m : Message} (hroom : Roomy c) (hwrote : b.Wrote holder rev m)
    (hlate : now + c.leaseRenew.toInt + c.attemptLimit < m.time + c.leaseTTL.toInt) :
    (Active.new c now rev done).Sound c b now holder done := by
  have hnonneg := hroom.renew_nonneg
  refine ⟨fun hdone => hdone, ⟨m, hwrote⟩, le_rfl, ?_, ?_⟩
  · simp only [Active.Renewing, Active.new]
    omega
  · intro _
    exact ⟨m, hwrote.mem, hwrote.2.1, hwrote.2.2, by simpa [Active.due, Active.new] using hlate⟩

theorem Active.Sound.renewed {start : Int} {attempt : Nat} (hroom : Roomy c)
    (h : a.Sound c b now holder done)
    (hr : a.renewal = .attempting attempt start (.answered (.revision rev))) :
    (a.renewed rev).Sound c b now holder done := by
  have hrenewing := h.renewing
  simp only [Active.Renewing, hr] at hrenewing
  rcases hrenewing with ⟨hnow, hstart, hlimit, hnext, _, hcall, hleased⟩
  have hone := hroom.attempt
  have htwo := hroom.attempts
  refine ⟨by simpa [Active.renewed] using h.parent, hcall, h.next, hnow, ?_⟩
  intro _
  refine hleased rev rfl _ ?_
  -- a tick that is waiting starts the next attempt now, another one within the interval
  by_cases hbuffered : a.ticker.buffered = true
  · simp only [Active.due, Active.renewed, hbuffered, if_true]
    omega
  · have := hnext (by simpa using hbuffered)
    simp only [Active.due, Active.renewed]
    omega

theorem Active.Sound.renewFailed {start : Int} {attempt : Nat} {call : Call} (err : RenewError)
    (h : a.Sound c b now holder done) (hr : a.renewal = .attempting attempt start call) :
    (a.renewFailed c now done attempt err).Sound c b now holder done := by
  have hnow : now ≤ a.ticker.next := by
    have hrenewing := h.renewing
    simp only [Active.Renewing, hr] at hrenewing
    exact hrenewing.1
  have hparent := h.parent
  simp only [Active.renewFailed]
  split
  · refine ⟨by simpa using hparent, h.rev, h.next, ⟨hnow, a.fence.not_open_pause⟩, ?_⟩
    exact fun hopen => absurd hopen a.fence.not_open_pause
  · split
    · refine ⟨by simpa using hparent, h.rev, h.next, a.fence.not_open_pause, ?_⟩
      exact fun hopen => absurd hopen a.fence.not_open_pause
    · refine ⟨by simpa using hparent, h.rev, h.next, a.fence.pause.not_open_fail err, ?_⟩
      exact fun hopen => absurd hopen (a.fence.pause.not_open_fail err)

theorem Fence.not_open_of_done {f : Fence RenewError} (hparent : done = true → f.parentDone = true)
    (hdone : done = true) : ¬ f.Open := by
  intro hopen
  rw [hopen.2.2] at hparent
  exact absurd (hparent hdone) (by simp)

theorem Active.Sound.tick (h : a.Sound c b now holder done)
    (hended : a.renewal ≠ .ended) (hdue : a.ticker.next ≤ now) :
    Active.Sound c b now holder done
      { a with ticker := ⟨a.ticker.next + c.leaseRenew.toInt, true⟩ } := by
  rcases h with ⟨hparent, hrev, hnext, hrenewing, hcovered⟩
  refine ⟨hparent, hrev, by dsimp only; omega, ?_, ?_⟩
  · unfold Active.Renewing at hrenewing ⊢
    cases hr : a.renewal with
    | waiting =>
      simp only [hr] at hrenewing ⊢
      omega
    | attempting attempt start call =>
      simp only [hr] at hrenewing ⊢
      rcases hrenewing with ⟨hnow, hstart, hlimit, _, hrest⟩
      exact ⟨by omega, hstart, hlimit, by simp, hrest⟩
    | backingOff attempt wake =>
      simp only [hr] at hrenewing ⊢
      exact ⟨by omega, hrenewing.2⟩
    | ended => exact absurd hr hended
  · intro hopen
    rcases hcovered hopen with ⟨m, hm, hholder, hput, hlate⟩
    refine ⟨m, hm, hholder, hput, ?_⟩
    have hrenewing' := hrenewing
    unfold Active.Renewing at hrenewing'
    unfold Active.due at hlate ⊢
    cases hr : a.renewal with
    | waiting =>
      simp only [hr] at hlate hrenewing' ⊢
      split at hlate
      · exact hlate
      · simp only [if_true]
        omega
    | attempting attempt start call | backingOff attempt wake => simpa [hr] using hlate
    | ended => exact absurd hr hended

theorem Active.Sound.renew (h : a.Sound c b now holder done) {r : RenewAction}
    {a' : Active} (hact : a.renew c now done r = some a') : a'.Sound c b now holder done := by
  have hlimit := attemptLimit_nonneg c
  have hrenewing := h.renewing
  cases r with
  | tick =>
    simp only [Active.renew] at hact
    split at hact
    · cases hact
    · next hended =>
        split at hact
        · next hdue =>
            cases hact
            exact h.tick hended hdue
        · cases hact
  | start =>
    simp only [Active.renew] at hact
    split at hact
    · next hr =>
        split at hact
        · next hbuffered =>
            cases hact
            simp only [Active.Renewing, hr] at hrenewing
            refine ⟨h.parent, h.rev, h.next, ?_, ?_⟩
            · refine ⟨hrenewing, le_rfl, by omega, fun _ => h.next, by simp, trivial, ?_⟩
              intro rev hrev
              cases hrev
            · intro hopen
              simpa [Active.due, hr, hbuffered] using h.covered hopen
        · cases hact
    · cases hact
  | retry =>
    simp only [Active.renew] at hact
    split at hact
    · next attempt wake hr =>
        split at hact
        · cases hact
          simp only [Active.Renewing, hr] at hrenewing
          refine ⟨h.parent, h.rev, h.next, ?_, fun hopen => absurd hopen hrenewing.2⟩
          refine ⟨hrenewing.1, le_rfl, by omega, fun _ => h.next, fun _ => hrenewing.2, trivial, ?_⟩
          intro rev hrev
          cases hrev
        · cases hact
    · cases hact
  | stop =>
    simp only [Active.renew] at hact
    have hstop : done = true → Active.Sound c b now holder done { a with renewal := .ended } := by
      intro hdone
      have hclosed := Fence.not_open_of_done h.parent hdone
      exact ⟨h.parent, h.rev, h.next, hclosed, fun hopen => absurd hopen hclosed⟩
    split at hact
    · split at hact
      · next hdone =>
          cases hact
          exact hstop hdone
      · cases hact
    · split at hact
      · next hdone =>
          cases hact
          exact hstop hdone
      · cases hact
    · cases hact

theorem Active.Sound.refence (h : a.Sound c b now holder done) {f : Fence RenewError} {l : DataLoop}
    {done' : Bool} (hparent : done' = true → f.parentDone = true) (hopen : f.Open → a.fence.Open) :
    Active.Sound c b now holder done' { a with fence := f, loop := l } := by
  refine ⟨hparent, h.rev, h.next, ?_, fun hf => h.covered (hopen hf)⟩
  have hrenewing := h.renewing
  unfold Active.Renewing at hrenewing ⊢
  cases hr : a.renewal with
  | waiting => simpa only [hr] using hrenewing
  | attempting attempt start call =>
    simp only [hr] at hrenewing ⊢
    rcases hrenewing with ⟨hnow, hstart, hlimit, hnext, hpaused, hrest⟩
    exact ⟨hnow, hstart, hlimit, hnext, fun hlater hf => hpaused hlater (hopen hf), hrest⟩
  | backingOff attempt wake =>
    simp only [hr] at hrenewing ⊢
    exact ⟨hrenewing.1, fun hf => hrenewing.2 (hopen hf)⟩
  | ended =>
    simp only [hr] at hrenewing ⊢
    exact fun hf => hrenewing (hopen hf)

theorem Active.Sound.data (h : a.Sound c b now holder done) {d : DataAction}
    (hact : a.data d = some p) :
    p = .checking .sent ∨ ∃ a', p = .active a' ∧ a'.Sound c b now holder done := by
  cases d with
  | begin =>
    simp only [Active.data] at hact
    split at hact
    · have hparent : done = true → a.fence.begin.2.parentDone = true := by
        simpa using h.parent
      have hopen : a.fence.begin.2.Open → a.fence.Open := Fence.open_of_begin
      split at hact
      · exact .inl (Option.some.inj hact).symm
      · next context f hbegin =>
          rw [hbegin] at hparent hopen
          exact .inr ⟨_, (Option.some.inj hact).symm, h.refence hparent hopen⟩
      · next wake f hbegin =>
          rw [hbegin] at hparent hopen
          exact .inr ⟨_, (Option.some.inj hact).symm, h.refence hparent hopen⟩
    · cases hact
  | wake =>
    simp only [Active.data] at hact
    split at hact
    · split at hact
      · exact .inr ⟨_, (Option.some.inj hact).symm, h.refence h.parent id⟩
      · cases hact
    · cases hact
  | next =>
    simp only [Active.data] at hact
    split at hact
    · exact .inr ⟨_, (Option.some.inj hact).symm, h.refence h.parent id⟩
    · cases hact
  | fail =>
    simp only [Active.data] at hact
    split at hact
    · split at hact
      · exact .inl (Option.some.inj hact).symm
      · cases hact
    · cases hact

theorem Bucket.Served.sound {ttl : Int} (h : Bucket.Served b ttl now holder request answer b') :
    (Call.answered answer).Sound b' holder := by
  cases h with
  | refused | deleted _ => trivial
  | found hwrote => exact ⟨_, hwrote⟩
  | created _ hb | updated _ hb => exact ⟨_, Bucket.wrote_put hb rfl⟩

theorem Bucket.Served.leased {ttl t : Int}
    (h : Bucket.Served b ttl now holder request (.revision rev) b') (ht : t < now + ttl) :
    b'.Leased ttl holder t := by
  have hput : (⟨holder, false, now⟩ : Message) ∈ b'.messages := by
    cases h with
    | created _ hb | updated _ hb => simp [hb]
  exact ⟨_, hput, rfl, rfl, ht⟩

theorem Phase.Sound.answered {call : Call} (h : p.Sound c b now holder done)
    (hcall : p.call = some (request, call))
    (hserved : Bucket.Served b c.leaseTTL.toInt now holder request answer b') :
    (p.answered answer).Sound c b' now holder done := by
  cases p with
  | creating call | looking call => exact hserved.sound
  | active a =>
    have hlater : a.Sound c b' now holder done := Active.Sound.mono hserved.extends h
    simp only [Phase.answered]
    split
    · next attempt start call hr =>
        have hrenewing := hlater.renewing
        have hcovered := hlater.covered
        simp only [Active.Renewing, hr] at hrenewing
        rcases hrenewing with ⟨hnow, hstart, hlimit, hnext, hpaused, _, _⟩
        refine ⟨hlater.parent, hlater.rev, hlater.next, ?_, ?_⟩
        · refine ⟨hnow, hstart, hlimit, hnext, hpaused, hserved.sound, ?_⟩
          intro rev hrev t ht
          cases hrev
          exact hserved.leased (by omega)
        · intro hopen
          simpa [Active.due, hr] using hcovered hopen
    · exact hlater
  | _ => trivial

/-- An update names a revision of the worker's own, and only a worker that lets go deletes. -/
def Request.Sound (b : Bucket) (holder : String) (p : Phase) (request : Request) : Prop :=
  (∀ rev, request = .update rev → ∃ m, b.Wrote holder rev m) ∧ (request = .delete → p.Released)

theorem Phase.Sound.call {call : Call} (h : p.Sound c b now holder done)
    (hcall : p.call = some (request, call)) : request.Sound b holder p := by
  cases p with
  | creating call | looking call | checking call =>
    cases hcall
    exact ⟨by simp, by simp⟩
  | active a =>
    simp only [Phase.call] at hcall
    split at hcall
    · cases hcall
      exact ⟨fun rev hrev => Request.update.inj hrev ▸ Active.Sound.rev h, by simp⟩
    · cases hcall
  | deleting call =>
    cases hcall
    exact ⟨by simp, fun _ => trivial⟩
  | _ => cases hcall

theorem Phase.call_of_outstanding (h : request ∈ p.outstanding) :
    p.call = some (request, .sent) := by
  unfold Phase.outstanding at h
  split at h
  · next hcall => rw [hcall, List.mem_singleton.1 h]
  · cases h

theorem Phase.Sound.outstanding {p' : Phase} (h : p.Sound c b now holder done)
    (hrel : p.Released → p'.Released) : ∀ request ∈ p.outstanding, request.Sound b holder p' := by
  intro request hrequest
  have hsound := h.call (Phase.call_of_outstanding hrequest)
  exact ⟨hsound.1, fun hdelete => hrel (hsound.2 hdelete)⟩

theorem Phase.released_resume (answer : Option Answer) (h : p.Released) :
    (p.resume c now holder done answer).Released := by
  cases p with
  | checking call =>
    simp only [Phase.resume]
    split
    · split <;> trivial
    · trivial
  | deleting call | stopped => trivial
  | _ => cases h

theorem Phase.Sound.resume_none (h : p.Sound c b now holder done) :
    (p.resume c now holder done none).Sound c b now holder done := by
  cases p with
  | active a =>
    simp only [Phase.resume]
    split
    · next hr => exact Active.Sound.renewFailed _ h hr
    · exact h
  | hydrating rev => exact h
  | _ => trivial

theorem Phase.Sound.resume_some (hroom : Roomy c) (h : p.Sound c b now holder done)
    (hcall : p.call = some (request, .answered answer)) :
    (p.resume c now holder done (some answer)).Sound c b now holder done := by
  cases p with
  | creating call =>
    cases hcall
    cases answer with
    | revision rev => exact h
    | _ => trivial
  | looking call =>
    cases hcall
    cases answer with
    | entry value rev =>
      simp only [Phase.resume]
      split
      · next hvalue => exact hvalue ▸ h
      · trivial
    | _ => trivial
  | active a =>
    simp only [Phase.call] at hcall
    simp only [Phase.resume]
    split
    · next attempt start call hr =>
        simp only [hr] at hcall
        cases hcall
        cases answer with
        | revision rev => exact Active.Sound.renewed hroom h hr
        | _ => exact Active.Sound.renewFailed _ h hr
    · exact h
  | checking call =>
    simp only [Phase.resume]
    split
    · split <;> trivial
    · trivial
  | deleting call => trivial
  | _ => cases hcall

/-- The write that made the worker the holder is young enough when it goes live. -/
def Prompt (c : Timing) (b : Bucket) (now : Int) : Phase → Prop
  | .hydrating rev =>
    match b.message? rev with
    | some m => now + c.leaseRenew.toInt + c.attemptLimit < m.time + c.leaseTTL.toInt
    | none => False
  | _ => True

theorem Worker.hydrated (hroom : Roomy c) (h : (Phase.hydrating rev).Sound c b now holder done)
    (hprompt : Prompt c b now (.hydrating rev)) :
    (Active.new c now rev done).Sound c b now holder done := by
  rcases h with ⟨m, hwrote⟩
  refine Active.sound_new hroom hwrote ?_
  simpa [Prompt, hwrote.1] using hprompt

theorem Worker.act_sound {w w' : Worker} {action : Action} {requests : List Request}
    (hroom : Roomy c) (h : w.phase.Sound c b now holder w.done)
    (hprompt : action = .hydrated → Prompt c b now w.phase)
    (hact : w.act c now holder action = some (w', requests)) :
    w'.phase.Sound c b now holder w'.done ∧ (w.phase.Released → w'.phase.Released) ∧
      ∀ request ∈ requests, request.Sound b holder w'.phase := by
  rcases w with ⟨done, p⟩
  cases action with
  | run =>
    cases p with
    | idle =>
      cases hact
      cases done <;> exact ⟨trivial, False.elim, by simp⟩
    | _ => cases hact
  | answer =>
    simp only [Worker.act] at hact
    split at hact
    · next hcall =>
        cases hact
        exact ⟨h.resume_some hroom hcall, Phase.released_resume _, by simp⟩
    · cases hact
  | fault =>
    simp only [Worker.act] at hact
    split at hact
    · cases hact
      have hrel : p.Released → (p.resume c now holder done none).Released :=
        Phase.released_resume none
      exact ⟨h.resume_none, hrel, h.outstanding hrel⟩
    · cases hact
  | retry =>
    cases p with
    | sleeping wake =>
      simp only [Worker.act] at hact
      split at hact
      · cases hact
        exact ⟨trivial, False.elim, by simp⟩
      · split at hact
        · cases hact
          exact ⟨trivial, False.elim, by simp⟩
        · cases hact
    | _ => cases hact
  | hydrated =>
    cases p with
    | hydrating rev =>
      simp only [Worker.act] at hact
      split at hact
      · cases hact
        exact ⟨trivial, False.elim, by simp⟩
      · cases hact
        exact ⟨Worker.hydrated hroom h (hprompt rfl), False.elim, by simp⟩
    | _ => cases hact
  | hydrateFailed =>
    cases p with
    | hydrating rev =>
      cases hact
      exact ⟨trivial, False.elim, by simp⟩
    | _ => cases hact
  | renew r =>
    cases p with
    | active a =>
      rcases Option.map_eq_some_iff.1 hact with ⟨a', ha', heq⟩
      cases heq
      exact ⟨Active.Sound.renew h ha', False.elim, by simp⟩
    | _ => cases hact
  | data d =>
    cases p with
    | active a =>
      rcases Option.map_eq_some_iff.1 hact with ⟨p', hp', heq⟩
      cases heq
      rcases Active.Sound.data h hp' with rfl | ⟨a', rfl, ha'⟩
      · exact ⟨trivial, False.elim, Phase.Sound.outstanding h False.elim⟩
      · exact ⟨ha', False.elim, by simp [Phase.leftover]⟩
    | _ => cases hact
  | cancel =>
    cases hact
    cases p with
    | active a =>
      have hclosed := a.fence.not_open_cancelParent
      exact ⟨Active.Sound.refence h (fun _ => rfl) fun hopen => absurd hopen hclosed,
        False.elim, by simp⟩
    | _ => exact ⟨h, id, by simp⟩
  | crash =>
    cases hact
    exact ⟨trivial, fun _ => trivial, h.outstanding fun _ => trivial⟩

end Steps

end Lease
end RelayPoint.Projector
