import RelayPoint.Signaling.Participation

/-!
# Coverage — whose membership covers a sequence

The projector asks at each fact which agents' intervals cover its sequence, and it asks while the log
is still growing and possibly after it has applied the fact before.
-/

namespace RelayPoint.Signaling

def Interval.covers (i : Interval) (s : Int) : Bool :=
  decide (i.joinSeq ≤ s) && (i.leftOpen || decide (s ≤ i.leftSeq))

def covered (ins : List Interval) (s : Int) : Bool :=
  ins.any fun i => i.covers s

namespace ParticipationView

variable {v : ParticipationView} {s seq : Int} {e : Event} {cur ins : List Interval} {i : Interval}

theorem mem_agents_of_covered {a : String} (h : covered (v.intervalsOf a) s = true) :
    a ∈ v.agents := by
  apply Finmap.lookup_isSome.1
  cases hlook : v.intervals.lookup a with
  | none => simp [intervalsOf, hlook, covered] at h
  | some ins => simp

/-! ## Later facts do not change who is covered -/

theorem covered_opened (h : s < seq) (cur : List Interval) :
    covered (opened seq cur) s = covered cur s := by
  have hnew : ¬ seq ≤ s := by omega
  by_cases hopen : lastOpen cur = true
  · simp [opened, hopen]
  · simp [opened, hopen, covered, Interval.covers, hnew]

theorem covered_closeFirst (h : s < seq) (cur : List Interval) :
    covered (closeFirst seq cur) s = covered cur s := by
  induction cur with
  | nil => rfl
  | cons i is ih =>
    cases hopen : i.leftOpen with
    | false => simpa [closeFirst, hopen, covered] using congrArg (i.covers s || ·) ih
    | true =>
      -- an open interval that covers `s` still does when it is closed after `s`
      have hle : s ≤ seq := by omega
      simp [closeFirst, hopen, covered, Interval.covers, hle]

theorem covered_closed (h : s < seq) (cur : List Interval) :
    covered (closed seq cur) s = covered cur s := by
  have hrev : ∀ l : List Interval, covered l.reverse s = covered l s := by
    simp [covered]
  calc covered (closed seq cur) s
      = covered (closeFirst seq cur.reverse) s := hrev _
    _ = covered cur.reverse s := covered_closeFirst h _
    _ = covered cur s := hrev _

theorem covered_stepIntervals (h : s < e.sequence) (a : String) (cur : List Interval) :
    covered (stepIntervals e a cur) s = covered cur s := by
  unfold stepIntervals
  split
  · split
    · exact covered_opened h cur
    · rfl
  · split
    · split
      · exact covered_closed h cur
      · rfl
    · rfl

theorem covered_fold_append (es later : List Event) (h : ∀ e ∈ later, s < e.sequence) (a : String) :
    covered ((fold (es ++ later)).intervalsOf a) s = covered ((fold es).intervalsOf a) s := by
  induction later using List.reverseRecOn with
  | nil => simp
  | append_singleton later e ih =>
    have hlater : ∀ e ∈ later, s < e.sequence := by
      intro e' he'
      exact h e' (by simp [he'])
    have he : s < e.sequence := h e (by simp)
    rw [← List.append_assoc, fold_concat, intervalsOf_applyFact, covered_stepIntervals he]
    exact ih hlater

/-! ## Applying a fact once more changes nothing -/

def LastOnly (cur : List Interval) : Prop :=
  ∀ i ∈ cur.dropLast, i.leftOpen = false

theorem lastOnly_nil : LastOnly [] := by
  intro i hi
  simp at hi

theorem closeFirst_of_closed (seq : Int) (h : ∀ i ∈ cur, i.leftOpen = false) :
    closeFirst seq cur = cur := by
  induction cur with
  | nil => rfl
  | cons i is ih =>
    have hi : i.leftOpen = false := h i (by simp)
    have his : closeFirst seq is = is := ih fun j hj => h j (by simp [hj])
    simp [closeFirst, hi, his]

theorem closed_of_closed (seq : Int) (h : ∀ i ∈ cur, i.leftOpen = false) :
    closed seq cur = cur := by
  have hrev : ∀ i ∈ cur.reverse, i.leftOpen = false := by
    intro i hi
    exact h i (by simpa using hi)
  simp [closed, closeFirst_of_closed seq hrev]

theorem closed_concat_open (seq : Int) (cur : List Interval) (hi : i.leftOpen = true) :
    closed seq (cur ++ [i]) = cur ++ [{ i with leftSeq := seq, leftOpen := false }] := by
  simp [closed, closeFirst, hi]

theorem LastOnly.all_closed (h : LastOnly cur) (hlast : lastOpen cur = false) :
    ∀ i ∈ cur, i.leftOpen = false := by
  rcases List.eq_nil_or_concat' cur with rfl | ⟨init, last, rfl⟩
  · simp
  · intro i hi
    rcases List.mem_append.1 hi with hi | hi
    · exact h i (by simpa using hi)
    · have hi : i = last := by simpa using hi
      simpa [hi, lastOpen] using hlast

theorem LastOnly.opened (h : LastOnly cur) (seq : Int) :
    LastOnly (ParticipationView.opened seq cur) := by
  by_cases hopen : lastOpen cur = true
  · simpa [ParticipationView.opened, hopen] using h
  · intro i hi
    simp [ParticipationView.opened, hopen] at hi
    exact h.all_closed (by simpa using hopen) i hi

theorem LastOnly.closed (h : LastOnly cur) (seq : Int) :
    ∀ i ∈ ParticipationView.closed seq cur, i.leftOpen = false := by
  rcases List.eq_nil_or_concat' cur with rfl | ⟨init, last, rfl⟩
  · simp
  · have hinit : ∀ i ∈ init, i.leftOpen = false := by
      intro i hi
      exact h i (by simpa using hi)
    cases hlast : last.leftOpen with
    | true =>
      rw [closed_concat_open seq init hlast]
      intro i hi
      rcases List.mem_append.1 hi with hi | hi
      · exact hinit i hi
      · have hi : i = { last with leftSeq := seq, leftOpen := false } := by simpa using hi
        simp [hi]
    | false =>
      have hall : ∀ i ∈ init ++ [last], i.leftOpen = false :=
        h.all_closed (by simp [lastOpen, hlast])
      rw [closed_of_closed seq hall]
      exact hall

theorem LastOnly.stepIntervals (h : LastOnly cur) (e : Event) (a : String) :
    LastOnly (ParticipationView.stepIntervals e a cur) := by
  unfold ParticipationView.stepIntervals
  split
  · split
    · exact h.opened e.sequence
    · exact h
  · split
    · split
      · exact fun i hi => h.closed e.sequence i (List.dropLast_subset _ hi)
      · exact h
    · exact h

theorem lastOnly_fold (es : List Event) (a : String) : LastOnly ((fold es).intervalsOf a) := by
  induction es using List.reverseRecOn with
  | nil => simpa [intervalsOf, new] using lastOnly_nil
  | append_singleton es e ih =>
    rw [fold_concat, intervalsOf_applyFact]
    exact ih.stepIntervals e a

theorem stepIntervals_idem (h : LastOnly cur) (e : Event) (a : String) :
    stepIntervals e a (stepIntervals e a cur) = stepIntervals e a cur := by
  by_cases hj : e.eventType = "participant.joined"
  · by_cases ha : a = e.actorId
    · have hopen := lastOpen_opened e.sequence cur
      simp only [stepIntervals, hj, ha, if_true]
      rw [opened, if_pos hopen]
    · simp [stepIntervals, ha]
  · by_cases hl : e.eventType = "participant.left"
    · by_cases ha : a = e.actorId
      · simpa [stepIntervals, hl, ha] using closed_of_closed e.sequence (h.closed e.sequence)
      · simp [stepIntervals, ha]
    · simp [stepIntervals, hj, hl]

theorem closeAt_of_lookup {agent : String} (h : v.intervals.lookup agent = some cur) :
    v.closeAt agent seq = ⟨v.intervals.insert agent (closed seq cur)⟩ := by
  simp [closeAt, h, closed]

theorem applyFact_idem (h : ∀ a, LastOnly (v.intervalsOf a)) (e : Event) :
    (v.applyFact e).applyFact e = v.applyFact e := by
  by_cases hj : e.eventType = "participant.joined"
  · have hopen : lastOpen ((v.openAt e.actorId e.sequence).intervalsOf e.actorId) = true := by
      rw [intervalsOf_openAt, if_pos rfl]
      exact lastOpen_opened _ _
    simp only [applyFact, hj, if_true]
    rw [openAt, if_pos hopen]
  · by_cases hl : e.eventType = "participant.left"
    · cases hlookup : v.intervals.lookup e.actorId with
      | none => simp [applyFact, hl, closeAt, hlookup]
      | some cur =>
        have hcur : LastOnly cur := by simpa [intervalsOf, hlookup] using h e.actorId
        have htwice := closed_of_closed e.sequence (hcur.closed e.sequence)
        have hagain : (⟨v.intervals.insert e.actorId (closed e.sequence cur)⟩ :
            ParticipationView).intervals.lookup e.actorId = some (closed e.sequence cur) :=
          Finmap.lookup_insert _
        have happly : ∀ u : ParticipationView,
            u.applyFact e = u.closeAt e.actorId e.sequence := by
          simp [applyFact, hl]
        rw [happly, happly, closeAt_of_lookup hlookup, closeAt_of_lookup hagain, htwice,
          Finmap.insert_insert]
    · simp [applyFact, hj, hl]

theorem iterate_applyFact (h : v.applyFact e = v) (n : Nat) :
    (fun v : ParticipationView => v.applyFact e)^[n] v = v :=
  Function.iterate_fixed h n

/-! ## The bounds of the intervals -/

def bounds (ins : List Interval) : List Int :=
  ins.flatMap fun i => if i.leftOpen then [i.joinSeq] else [i.joinSeq, i.leftSeq]

theorem bounds_append (ins later : List Interval) :
    bounds (ins ++ later) = bounds ins ++ bounds later := by
  simp [bounds]

theorem bounds_open (join left : Int) : bounds [⟨join, left, true⟩] = [join] := by
  simp [bounds]

theorem lt_of_increasing (h : (bounds ins).Pairwise (· < ·)) (hi : i ∈ ins)
    (hclosed : i.leftOpen = false) : i.joinSeq < i.leftSeq := by
  have hpair := (List.pairwise_flatMap.1 h).1 i hi
  simpa [hclosed] using hpair

theorem mem_bounds_joinSeq (hi : i ∈ ins) : i.joinSeq ∈ bounds ins := by
  refine List.mem_flatMap.2 ⟨i, hi, ?_⟩
  cases i.leftOpen <;> simp

theorem mem_bounds_leftSeq (hi : i ∈ ins) (hclosed : i.leftOpen = false) :
    i.leftSeq ∈ bounds ins := by
  refine List.mem_flatMap.2 ⟨i, hi, ?_⟩
  simp [hclosed]

structure Increasing (ins : List Interval) (s : Int) : Prop where
  bounds : (bounds ins).Pairwise (· < ·)
  below : ∀ b ∈ ParticipationView.bounds ins, b < s
  lastOnly : LastOnly ins

theorem increasing_nil (s : Int) : Increasing [] s :=
  ⟨List.Pairwise.nil, by simp [bounds], lastOnly_nil⟩

section Increasing

variable {cur : List Interval} {s t : Int}

theorem Increasing.mono (h : Increasing cur s) (hst : s ≤ t) : Increasing cur t :=
  ⟨h.bounds, fun b hb => (h.below b hb).trans_le hst, h.lastOnly⟩

theorem Increasing.concat (h : Increasing cur s) {extra : List Int}
    (hextra : extra.Pairwise (· < ·)) (hlow : ∀ b ∈ extra, s ≤ b) :
    (ParticipationView.bounds cur ++ extra).Pairwise (· < ·) := by
  refine List.pairwise_append.2 ⟨h.bounds, hextra, ?_⟩
  intro b hb c hc
  exact (h.below b hb).trans_le (hlow c hc)

theorem Increasing.opened (h : Increasing cur s) (hst : s < t) :
    Increasing (ParticipationView.opened s cur) t := by
  by_cases hopen : lastOpen cur = true
  · simpa [ParticipationView.opened, hopen] using h.mono hst.le
  · have hlast := h.lastOnly.opened s
    rw [ParticipationView.opened, if_neg hopen] at hlast ⊢
    refine ⟨?_, ?_, hlast⟩
    · rw [bounds_append, bounds_open]
      exact h.concat (List.pairwise_singleton _ _) (by simp)
    · intro b hb
      rw [bounds_append] at hb
      rcases List.mem_append.1 hb with hb | hb
      · exact (h.below b hb).trans hst
      · rw [List.mem_singleton.1 hb]
        exact hst

theorem Increasing.closed (h : Increasing cur s) (hst : s < t) :
    Increasing (ParticipationView.closed s cur) t := by
  have hlast : LastOnly (ParticipationView.closed s cur) :=
    fun i hi => h.lastOnly.closed s i (List.dropLast_subset _ hi)
  cases hopen : lastOpen cur with
  | false =>
    rw [closed_of_closed s (h.lastOnly.all_closed hopen)] at hlast ⊢
    exact h.mono hst.le
  | true =>
    rcases List.eq_nil_or_concat' cur with rfl | ⟨init, last, rfl⟩
    · simp [lastOpen] at hopen
    · have hi : last.leftOpen = true := by simpa [lastOpen] using hopen
      have hwas : ParticipationView.bounds (init ++ [last]) =
          ParticipationView.bounds init ++ [last.joinSeq] := by
        simp [ParticipationView.bounds, hi]
      -- the open interval gets `s` as its upper bound, after everything else
      have hnow : ParticipationView.bounds (ParticipationView.closed s (init ++ [last])) =
          ParticipationView.bounds (init ++ [last]) ++ [s] := by
        rw [closed_concat_open s init hi, hwas, bounds_append, List.append_assoc]
        rfl
      refine ⟨?_, ?_, hlast⟩
      · rw [hnow]
        exact h.concat (List.pairwise_singleton _ _) (by simp)
      · intro b hb
        rw [hnow] at hb
        rcases List.mem_append.1 hb with hb | hb
        · exact (h.below b hb).trans hst
        · rw [List.mem_singleton.1 hb]
          exact hst

theorem Increasing.stepIntervals (h : Increasing cur e.sequence) (a : String) (ht : e.sequence < t) :
    Increasing (ParticipationView.stepIntervals e a cur) t := by
  unfold ParticipationView.stepIntervals
  split
  · split
    · exact h.opened ht
    · exact h.mono ht.le
  · split
    · split
      · exact h.closed ht
      · exact h.mono ht.le
    · exact h.mono ht.le

end Increasing

theorem increasing_fold {facts : List Event}
    (hinc : facts.Pairwise fun e f => e.sequence < f.sequence) (a : String) :
    ∀ {s : Int}, (∀ e ∈ facts, e.sequence < s) → Increasing ((fold facts).intervalsOf a) s := by
  induction facts using List.reverseRecOn with
  | nil =>
    intro s _
    simpa [intervalsOf, new] using increasing_nil s
  | append_singleton facts e ih =>
    intro s hs
    rcases List.pairwise_append.1 hinc with ⟨hfacts, _, hlt⟩
    have hbefore : Increasing ((fold facts).intervalsOf a) e.sequence :=
      ih hfacts fun f hf => hlt f hf e (by simp)
    rw [fold_concat, intervalsOf_applyFact]
    exact hbefore.stepIntervals a (hs e (by simp))

/-! ## Who is covered by the latest fact -/

def Closes (v : ParticipationView) (e : Event) (a : String) : Prop :=
  e.eventType = "participant.left" ∧ a = e.actorId ∧ v.isParticipantNow a = true

theorem Increasing.covered_iff (h : Increasing cur s) :
    covered cur s = true ↔ lastOpen cur = true := by
  constructor
  · intro hcov
    by_contra hopen
    have hclosed := h.lastOnly.all_closed (by simpa using hopen)
    rcases List.any_eq_true.1 hcov with ⟨i, hi, hcovers⟩
    -- a closed interval ended below `s`
    have hleft : i.leftSeq < s := h.below _ (mem_bounds_leftSeq hi (hclosed i hi))
    have hle : i.joinSeq ≤ s ∧ s ≤ i.leftSeq := by
      simpa [Interval.covers, hclosed i hi] using hcovers
    exact absurd hleft (not_lt.2 hle.2)
  · intro hopen
    rcases List.eq_nil_or_concat' cur with rfl | ⟨init, last, rfl⟩
    · simp [lastOpen] at hopen
    · have hi : last.leftOpen = true := by simpa [lastOpen] using hopen
      have hjoin : last.joinSeq < s := h.below _ (mem_bounds_joinSeq (by simp))
      refine List.any_eq_true.2 ⟨last, by simp, ?_⟩
      simp [Interval.covers, hi, hjoin.le]

theorem Increasing.covered_opened (h : Increasing cur s) :
    covered (ParticipationView.opened s cur) s = true := by
  by_cases hopen : lastOpen cur = true
  · rw [ParticipationView.opened, if_pos hopen]
    exact h.covered_iff.2 hopen
  · simp [ParticipationView.opened, hopen, covered, Interval.covers]

theorem Increasing.covered_closed (h : Increasing cur s) :
    covered (ParticipationView.closed s cur) s = true ↔ lastOpen cur = true := by
  cases hopen : lastOpen cur with
  | false => rw [closed_of_closed s (h.lastOnly.all_closed hopen), h.covered_iff, hopen]
  | true =>
    rcases List.eq_nil_or_concat' cur with rfl | ⟨init, last, rfl⟩
    · simp [lastOpen] at hopen
    · have hi : last.leftOpen = true := by simpa [lastOpen] using hopen
      have hjoin : last.joinSeq < s := h.below _ (mem_bounds_joinSeq (by simp))
      rw [closed_concat_open s init hi]
      simp [covered, Interval.covers, hjoin.le]

theorem covered_latest {a : String} (h : Increasing (v.intervalsOf a) e.sequence) :
    covered ((v.applyFact e).intervalsOf a) e.sequence = true ↔
      (v.applyFact e).isParticipantNow a = true ∨ Closes v e a := by
  simp only [isParticipantNow_applyFact, intervalsOf_applyFact]
  by_cases ha : a = e.actorId
  · by_cases hj : e.eventType = "participant.joined"
    · simp [stepIntervals, nowAfter, hj, ← ha, h.covered_opened]
    · by_cases hl : e.eventType = "participant.left"
      · simp [stepIntervals, nowAfter, Closes, hl, ← ha, h.covered_closed, isParticipantNow]
      · simp [stepIntervals, nowAfter, Closes, hj, hl, h.covered_iff, isParticipantNow]
  · simp [stepIntervals, nowAfter, Closes, ha, h.covered_iff, isParticipantNow]

end ParticipationView

end RelayPoint.Signaling
