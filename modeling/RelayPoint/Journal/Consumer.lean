import RelayPoint.Journal.Log

/-!
# Consumer — reading a stream in order

A pull consumer hands out the messages of some subjects, from some sequence on, in stream order and
each once.  How many it hands out at a time is up to the broker.  All it will ever hand out of a
stream is `feed`:

* `feed_append` — a longer stream adds to the end of the feed;
* `feed_take` — what it hands out up to a sequence is the feed of the stream up to that sequence;
* `eq_feed_of_end_le` — a reader who has seen the end of the feed has seen all of it;
* `lastSeq_eq_end` — the end of the feed of one subject is the subject's last sequence.
-/

namespace RelayPoint.Journal

structure Delivered (σ ι ε : Type) where
  seq : Nat
  msg : Msg σ ι ε

variable {σ ι ε : Type}

section Feed

variable (want : σ → Bool) (after : Nat)

def feedFrom (n : Nat) : List (Msg σ ι ε) → List (Delivered σ ι ε)
  | [] => []
  | m :: s =>
    if after < n + 1 ∧ want m.subject = true then ⟨n + 1, m⟩ :: feedFrom (n + 1) s
    else feedFrom (n + 1) s

def feed (s : List (Msg σ ι ε)) : List (Delivered σ ι ε) :=
  feedFrom want after 0 s

def endOf (l : List (Delivered σ ι ε)) : Nat :=
  (l.getLast?.map Delivered.seq).getD 0

end Feed

variable {want : σ → Bool} {after n : Nat} {s t : List (Msg σ ι ε)} {m : Msg σ ι ε}
variable {l : List (Delivered σ ι ε)} {d : Delivered σ ι ε}

theorem feedFrom_append : ∀ {n : Nat}, feedFrom want after n (s ++ t) =
    feedFrom want after n s ++ feedFrom want after (n + s.length) t := by
  induction s with
  | nil => simp [feedFrom]
  | cons m s ih =>
    intro n
    have hlen : n + (m :: s).length = n + 1 + s.length := by simp; omega
    by_cases h : after < n + 1 ∧ want m.subject = true
    · simp only [List.cons_append, feedFrom, if_pos h, ih, hlen]
    · simp only [List.cons_append, feedFrom, if_neg h, ih, hlen]

theorem feed_append :
    feed want after (s ++ t) = feed want after s ++ feedFrom want after s.length t := by
  simp [feed, feedFrom_append]

theorem feed_isPrefixOf (h : s <+: t) : feed want after s <+: feed want after t := by
  rcases h with ⟨r, rfl⟩
  rw [feed_append]
  exact List.prefix_append _ _

theorem seq_of_mem_feedFrom : ∀ {n : Nat}, d ∈ feedFrom want after n s →
    n < d.seq ∧ d.seq ≤ n + s.length ∧ after < d.seq := by
  induction s with
  | nil =>
    intro n h
    simp [feedFrom] at h
  | cons m s ih =>
    intro n h
    have htail : d ∈ feedFrom want after (n + 1) s →
        n < d.seq ∧ d.seq ≤ n + (m :: s).length ∧ after < d.seq := by
      intro hd
      rcases ih hd with ⟨hlo, hhi, hafter⟩
      exact ⟨by omega, by simp; omega, hafter⟩
    by_cases hm : after < n + 1 ∧ want m.subject = true
    · simp only [feedFrom, if_pos hm, List.mem_cons] at h
      rcases h with rfl | hd
      · exact ⟨by simp, by simp, hm.1⟩
      · exact htail hd
    · simp only [feedFrom, if_neg hm] at h
      exact htail h

theorem mem_of_mem_feedFrom : ∀ {n : Nat}, d ∈ feedFrom want after n s → d.msg ∈ s := by
  induction s with
  | nil =>
    intro n h
    simp [feedFrom] at h
  | cons m s ih =>
    intro n h
    by_cases hm : after < n + 1 ∧ want m.subject = true
    · simp only [feedFrom, if_pos hm, List.mem_cons] at h
      rcases h with rfl | hd
      · exact List.mem_cons_self
      · exact List.mem_cons_of_mem _ (ih hd)
    · simp only [feedFrom, if_neg hm] at h
      exact List.mem_cons_of_mem _ (ih h)

theorem feedFrom_increasing : ∀ {n : Nat},
    (feedFrom want after n s).Pairwise fun d d' => d.seq < d'.seq := by
  induction s with
  | nil => simp [feedFrom]
  | cons m s ih =>
    intro n
    by_cases hm : after < n + 1 ∧ want m.subject = true
    · simp only [feedFrom, if_pos hm, List.pairwise_cons]
      exact ⟨fun d hd => (seq_of_mem_feedFrom hd).1, ih⟩
    · simpa only [feedFrom, if_neg hm] using ih

theorem feedFrom_after {lo : Nat} : ∀ {n : Nat}, after ≤ lo → feedFrom want lo n s =
    (feedFrom want after n s).filter fun d => lo < d.seq := by
  induction s with
  | nil => simp [feedFrom]
  | cons m s ih =>
    intro n hle
    by_cases hw : want m.subject = true
    · by_cases hlo : lo < n + 1
      · have hafter : after < n + 1 := by omega
        simp [feedFrom, hw, hlo, hafter, ih hle]
      · by_cases hafter : after < n + 1
        all_goals simp [feedFrom, hw, hlo, hafter, ih hle]
    · simp [feedFrom, hw, ih hle]

theorem filter_le_append_filter_lt (h : l.Pairwise fun d d' => d.seq < d'.seq) :
    l = l.filter (fun d => d.seq ≤ n) ++ l.filter (fun d => n < d.seq) := by
  induction l with
  | nil => rfl
  | cons d l ih =>
    rcases List.pairwise_cons.1 h with ⟨hd, hl⟩
    by_cases hn : d.seq ≤ n
    · have hgt : ¬ n < d.seq := by omega
      simpa [hn] using ih hl
    · have hgt : n < d.seq := by omega
      have hnone : l.filter (fun d => d.seq ≤ n) = [] := by
        refine List.filter_eq_nil_iff.2 ?_
        intro d' hd'
        have := hd d' hd'
        simp only [decide_eq_true_eq]
        omega
      have hall : l.filter (fun d => n < d.seq) = l := by
        refine List.filter_eq_self.2 ?_
        intro d' hd'
        have := hd d' hd'
        exact decide_eq_true (by omega)
      simp [hgt, hnone, hall]

theorem seq_pos_of_mem_feed (h : d ∈ feed want after s) : 0 < d.seq :=
  (seq_of_mem_feedFrom h).1

/-! ## Parts of a feed -/

theorem feed_take : feed want after (s.take n) =
    (feed want after s).filter fun d => d.seq ≤ n := by
  have hsplit : feed want after s =
      feed want after (s.take n) ++ feedFrom want after (s.take n).length (s.drop n) := by
    rw [← feed_append, List.take_append_drop]
  have hlo : (feed want after (s.take n)).filter (fun d => d.seq ≤ n) =
      feed want after (s.take n) := by
    refine List.filter_eq_self.2 ?_
    intro d hd
    have := (seq_of_mem_feedFrom hd).2.1
    have hlen : (s.take n).length ≤ n := List.length_take_le n s
    exact decide_eq_true (by omega)
  have hhi : (feedFrom want after (s.take n).length (s.drop n)).filter (fun d => d.seq ≤ n) =
      [] := by
    refine List.filter_eq_nil_iff.2 ?_
    intro d hd
    rcases seq_of_mem_feedFrom hd with ⟨hlt, hle, _⟩
    -- nothing is dropped from a stream of at most `n` messages
    have hlen : (s.take n).length = min n s.length := List.length_take
    have hdrop : (s.drop n).length = s.length - n := List.length_drop
    have : ¬ d.seq ≤ n := by omega
    simpa using this
  rw [hsplit, List.filter_append, hlo, hhi, List.append_nil]

variable {r : List (Delivered σ ι ε)} {unreadable : List (Nat × String)}

theorem feed_take_of_split (h : feed want after s = l ++ r) (hlo : ∀ d ∈ l, d.seq ≤ n)
    (hhi : ∀ d ∈ r, n < d.seq) : feed want after (s.take n) = l := by
  have hkeep : l.filter (fun d => d.seq ≤ n) = l :=
    List.filter_eq_self.2 fun d hd => decide_eq_true (hlo d hd)
  have hdrop : r.filter (fun d => d.seq ≤ n) = [] :=
    List.filter_eq_nil_iff.2 fun d hd => by simpa using hhi d hd
  rw [feed_take, h, List.filter_append, hkeep, hdrop, List.append_nil]

theorem lt_seq_of_split (h : feed want after s = l ++ d :: r) : ∀ d' ∈ r, d.seq < d'.seq := by
  have hpair : (l ++ d :: r).Pairwise fun d d' => d.seq < d'.seq := by
    rw [← h]
    exact feedFrom_increasing
  exact (List.pairwise_cons.1 (List.pairwise_append.1 hpair).2.1).1

theorem feed_take_append {lo hi : Nat} (h : lo ≤ hi) :
    feed want 0 (s.take hi) = feed want 0 (s.take lo) ++ feed want lo (s.take hi) := by
  have hlate : feed want lo (s.take hi) = (feed want 0 (s.take hi)).filter fun d => lo < d.seq :=
    feedFrom_after (Nat.zero_le _)
  have hearly : feed want 0 (s.take lo) = (feed want 0 (s.take hi)).filter fun d => d.seq ≤ lo := by
    rw [← feed_take, List.take_take, Nat.min_eq_left h]
  -- the sequences increase, so those up to `lo` come first
  rw [hlate, hearly]
  exact filter_le_append_filter_lt feedFrom_increasing

theorem endOf_nil : endOf ([] : List (Delivered σ ι ε)) = 0 :=
  rfl

@[simp] theorem endOf_concat : endOf (l ++ [d]) = d.seq := by
  simp [endOf]

theorem endOf_append {l' : List (Delivered σ ι ε)} (h : l' ≠ []) : endOf (l ++ l') = endOf l' := by
  rcases List.eq_nil_or_concat l' with rfl | ⟨l', d, rfl⟩
  · exact absurd rfl h
  · rw [List.concat_eq_append, ← List.append_assoc, endOf_concat, endOf_concat]

theorem feed_take_endOf (h : l <+: feed want after s) : feed want after (s.take (endOf l)) = l := by
  rcases h with ⟨r, hr⟩
  have hpair : (l ++ r).Pairwise fun d d' => d.seq < d'.seq := by
    rw [hr]
    exact feedFrom_increasing
  have hpos : ∀ d ∈ l ++ r, 0 < d.seq := fun d hd => seq_pos_of_mem_feed (hr ▸ hd)
  rw [feed_take, ← hr, List.filter_append]
  rcases List.eq_nil_or_concat l with rfl | ⟨l, d, rfl⟩
  · have hnone : r.filter (fun d => d.seq ≤ 0) = [] := by
      refine List.filter_eq_nil_iff.2 ?_
      intro d hd
      have := hpos d (by simpa using hd)
      simp only [decide_eq_true_eq]
      omega
    simpa [endOf_nil] using hnone
  · rw [List.concat_eq_append] at hpair ⊢
    rw [endOf_concat]
    rcases List.pairwise_append.1 hpair with ⟨hleft, _, hcross⟩
    have hkeep : (l ++ [d]).filter (fun d' => d'.seq ≤ d.seq) = l ++ [d] := by
      refine List.filter_eq_self.2 ?_
      intro d' hd'
      rcases List.mem_append.1 hd' with hd' | hd'
      · have := (List.pairwise_append.1 hleft).2.2 d' hd' d (by simp)
        exact decide_eq_true (Nat.le_of_lt this)
      · rw [List.mem_singleton.1 hd']
        exact decide_eq_true (Nat.le_refl _)
    have hdrop : r.filter (fun d' => d'.seq ≤ d.seq) = [] := by
      refine List.filter_eq_nil_iff.2 ?_
      intro d' hd'
      have := hcross d (by simp) d' hd'
      simpa using this
    rw [hkeep, hdrop, List.append_nil]

theorem eq_feed_of_end_le (h : l <+: feed want after s)
    (hend : endOf (feed want after s) ≤ endOf l) : l = feed want after s := by
  rcases h with ⟨r, hr⟩
  rcases List.eq_nil_or_concat r with rfl | ⟨r, d, rfl⟩
  · simpa using hr
  · -- the end of the feed comes after everything read
    rw [List.concat_eq_append, ← List.append_assoc] at hr
    have hlt : endOf l < d.seq := by
      rcases List.eq_nil_or_concat l with rfl | ⟨l, d', rfl⟩
      · have hd : d ∈ feed want after s := by simp [← hr]
        exact seq_pos_of_mem_feed hd
      · have hpair : (l.concat d' ++ r ++ [d]).Pairwise fun d d' => d.seq < d'.seq := by
          rw [hr]
          exact feedFrom_increasing
        have := (List.pairwise_append.1 hpair).2.2 d' (by simp) d (by simp)
        simpa using this
    rw [← hr, endOf_concat] at hend
    omega

theorem endOf_le (h : l <+: feed want after s) : endOf l ≤ endOf (feed want after s) := by
  by_contra hlt
  have heq := eq_feed_of_end_le h (by omega)
  exact hlt (by rw [heq])

/-! ## Batches -/

section Batch

variable (want after)

def batch (size pos : Nat) (s : List (Msg σ ι ε)) : List (Delivered σ ι ε) :=
  ((feed want after s).drop pos).take size

end Batch

variable {size pos : Nat}

theorem take_add_batch : (feed want after s).take (pos + (batch want after size pos s).length) =
    (feed want after s).take pos ++ batch want after size pos s := by
  rw [List.take_add]
  exact congrArg _ (List.take_eq_take_min.trans (by simp [batch]))

theorem take_feed_append (h : pos ≤ (feed want after s).length) :
    (feed want after (s ++ t)).take pos = (feed want after s).take pos := by
  rw [feed_append, List.take_append_of_le_length h]

theorem add_batch_le (h : pos ≤ (feed want after s).length) :
    pos + (batch want after size pos s).length ≤ (feed want after s).length := by
  simp only [batch, List.length_take, List.length_drop]
  omega

/-- A message as a client gets it: the sequence comes from metadata that may be unreadable. -/
structure Fetched (σ ι ε : Type) where
  sequence : Except String Nat
  msg : Msg σ ι ε

def fetched (unreadable : List (Nat × String)) : List (Delivered σ ι ε) → List (Fetched σ ι ε)
  | [] => []
  | d :: ds =>
    { sequence := match unreadable.lookup d.seq with
        | some err => .error err
        | none => .ok d.seq
      msg := d.msg } :: fetched unreadable ds

theorem fetched_length : (fetched unreadable l).length = l.length := by
  induction l with
  | nil => rfl
  | cons d l ih => simp [fetched, ih]

theorem fetched_cons :
    fetched unreadable (d :: l) = ⟨.ok d.seq, d.msg⟩ :: fetched unreadable l ∨
      ∃ err, fetched unreadable (d :: l) = ⟨.error err, d.msg⟩ :: fetched unreadable l := by
  cases h : unreadable.lookup d.seq with
  | none => exact .inl (by simp [fetched, h])
  | some err => exact .inr ⟨err, by simp [fetched, h]⟩

/-! ## One subject -/

section Subject

variable [DecidableEq σ] {subj : σ}

theorem map_msg_feedFrom : ∀ {n : Nat},
    (feedFrom (fun x => decide (x = subj)) 0 n s).map Delivered.msg = log subj s := by
  induction s with
  | nil => simp [feedFrom]
  | cons m s ih =>
    by_cases hm : m.subject = subj
    all_goals simp [feedFrom, hm, ih, log]

theorem map_msg_feed : (feed (fun x => decide (x = subj)) 0 s).map Delivered.msg = log subj s :=
  map_msg_feedFrom

theorem lastSeq_eq_end : lastSeq subj s = endOf (feed (fun x => decide (x = subj)) 0 s) := by
  induction s using List.reverseRecOn with
  | nil => rfl
  | append_singleton s m ih =>
    by_cases hm : m.subject = subj
    · rw [lastSeq_concat_self hm, feed_append]
      simp [feedFrom, hm]
    · rw [lastSeq_concat_other hm, feed_append, ih]
      simp [feedFrom, hm]

end Subject

end RelayPoint.Journal
