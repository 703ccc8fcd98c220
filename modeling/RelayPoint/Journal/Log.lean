import Mathlib.Data.List.DropRight

/-!
# Log — many subjects in one stream

A stream is one totally ordered list of messages; the message at index `i` has stream sequence
`i + 1`.  Each message belongs to a subject, and the log of a subject is the sub-list of its
messages.  The last stream sequence of a subject is what a writer echoes to append under optimistic
concurrency, so the point of this file is what such a number pins down:

* `prefixAt s n` — the log that ends with the message at sequence `n`;
* `prefixAt_append` — it does not change when the stream grows;
* `prefixAt_lastSeq` — the last sequence of a subject names its whole log.
-/

namespace RelayPoint.Journal

structure Msg (σ ι ε : Type) where
  subject : σ
  id : ι
  payload : ε

section Log

variable {σ ι ε : Type} [DecidableEq σ]

def log (subj : σ) (s : List (Msg σ ι ε)) : List (Msg σ ι ε) :=
  s.filter fun m => m.subject = subj

def lastSeq (subj : σ) (s : List (Msg σ ι ε)) : Nat :=
  (s.rdropWhile fun m => m.subject ≠ subj).length

variable {subj subj' : σ} {s t : List (Msg σ ι ε)} {m : Msg σ ι ε} {n : Nat}

@[simp] theorem log_nil : log subj ([] : List (Msg σ ι ε)) = [] :=
  rfl

@[simp] theorem log_append : log subj (s ++ t) = log subj s ++ log subj t := by
  simp [log]

theorem log_concat_self (h : m.subject = subj) : log subj (s ++ [m]) = log subj s ++ [m] := by
  simp [log, h]

theorem log_concat_other (h : m.subject ≠ subj) : log subj (s ++ [m]) = log subj s := by
  simp [log, h]

theorem mem_log : m ∈ log subj s ↔ m ∈ s ∧ m.subject = subj := by
  simp [log]

@[simp] theorem lastSeq_nil : lastSeq subj ([] : List (Msg σ ι ε)) = 0 :=
  rfl

theorem lastSeq_concat_self (h : m.subject = subj) : lastSeq subj (s ++ [m]) = s.length + 1 := by
  simp [lastSeq, h]

theorem lastSeq_concat_other (h : m.subject ≠ subj) : lastSeq subj (s ++ [m]) = lastSeq subj s := by
  simp [lastSeq, h]

theorem lastSeq_le_length : lastSeq subj s ≤ s.length :=
  (List.rdropWhile_prefix _ _).length_le

theorem log_take_lastSeq : log subj (s.take (lastSeq subj s)) = log subj s := by
  induction s using List.reverseRecOn with
  | nil => simp
  | append_singleton s m ih =>
    by_cases h : m.subject = subj
    · rw [lastSeq_concat_self h, List.take_of_length_le (by simp)]
    · rw [lastSeq_concat_other h, log_concat_other h, List.take_append_of_le_length lastSeq_le_length]
      exact ih

theorem exists_of_lastSeq_pos (h : 0 < lastSeq subj s) :
    ∃ m, s[lastSeq subj s - 1]? = some m ∧ m.subject = subj := by
  induction s using List.reverseRecOn with
  | nil => simp at h
  | append_singleton s m ih =>
    by_cases hm : m.subject = subj
    · refine ⟨m, ?_, hm⟩
      rw [lastSeq_concat_self hm]
      simp
    · rw [lastSeq_concat_other hm] at h ⊢
      rcases ih h with ⟨m', hget, hsub⟩
      refine ⟨m', ?_, hsub⟩
      have hle : lastSeq subj s ≤ s.length := lastSeq_le_length
      rw [List.getElem?_append_left (by omega)]
      exact hget

/-! ## The prefix a sequence names -/

/-- The log that ends with the message at stream sequence `n`: a sequence determines a subject and a
prefix of its log.  Sequence `0` names the empty log. -/
def prefixAt (s : List (Msg σ ι ε)) : Nat → List (Msg σ ι ε)
  | 0 => []
  | n + 1 =>
    match s[n]? with
    | none => []
    | some m => log m.subject (s.take (n + 1))

theorem prefixAt_of_getElem? (h : s[n]? = some m) :
    prefixAt s (n + 1) = log m.subject (s.take n) ++ [m] := by
  have htake : s.take (n + 1) = s.take n ++ [m] := by
    rw [List.take_add_one, h]
    rfl
  simp [prefixAt, h, htake, log_concat_self rfl]

theorem prefixAt_append (h : n ≤ s.length) : prefixAt (s ++ t) n = prefixAt s n := by
  cases n with
  | zero => rfl
  | succ n =>
    have hlt : n < s.length := h
    simp only [prefixAt, List.getElem?_append_left hlt, List.take_append_of_le_length h]

theorem prefixAt_isPrefixOf (h : s[n]? = some m) : prefixAt s (n + 1) <+: log m.subject s := by
  simp only [prefixAt, h]
  exact (List.take_prefix _ s).filter _

theorem prefixAt_lastSeq : prefixAt s (lastSeq subj s) = log subj s := by
  have hwhole : log subj (s.take (lastSeq subj s)) = log subj s := log_take_lastSeq
  rcases Nat.eq_zero_or_pos (lastSeq subj s) with h0 | hpos
  · rw [← hwhole, h0]
    rfl
  · rcases exists_of_lastSeq_pos hpos with ⟨m, hget, hsub⟩
    have hsucc : lastSeq subj s - 1 + 1 = lastSeq subj s := Nat.sub_add_cancel hpos
    calc
      prefixAt s (lastSeq subj s)
          = prefixAt s (lastSeq subj s - 1 + 1) := by rw [hsucc]
      _ = log subj (s.take (lastSeq subj s - 1 + 1)) := by simp only [prefixAt, hget, hsub]
      _ = log subj s := by rw [hsucc, hwhole]

end Log

end RelayPoint.Journal
