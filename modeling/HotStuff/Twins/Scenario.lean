import HotStuff.Twins.Network

/-!
# The safety check of a twins scenario

`checkCommits` walks the executed blocks of the replicas without twins index by index, and stops
at the first index that no such replica reached or at which two of them executed different
blocks. The inner loop is a fold, `commitsAt`, whose flag and hash set `commitsAt_fst` and
`mem_commitsAt_snd` describe; the outer loop terminates because it only goes on while some log is
longer than the index. `checkCommits_agreement` says what it returns: `(true, L)`, with `L` the
longest log, exactly when the logs agree at every index, and otherwise `(false, i)` with `i` the
first index at which two of them differ.
-/

namespace HotStuff.Twins

variable {S M : Type}

/-! ## The logs the check reads -/

/-- The executed blocks of the replicas with exactly one node, in the order of `replicas`. -/
def nonTwinLogs (replicas : List (List (Node S))) : List (List Block) :=
  replicas.filterMap fun
    | [node] => some node.executedBlocks
    | _ => none

/-- The length of the longest log, `0` when there is none. -/
def longest (logs : List (List Block)) : Nat :=
  (logs.map List.length).foldr max 0

theorem longest_le_iff (logs : List (List Block)) (n : Nat) :
    longest logs ≤ n ↔ ∀ l ∈ logs, l.length ≤ n := by
  induction logs with
  | nil => simp [longest]
  | cons l ls ih => simp [longest, ih.symm]

/-- Two of the logs hold blocks with different hashes at index `i`. -/
def DiffersAt (logs : List (List Block)) (i : Nat) : Prop :=
  ∃ l₁ ∈ logs, ∃ l₂ ∈ logs, ∃ b₁ b₂, l₁[i]? = some b₁ ∧ l₂[i]? = some b₂ ∧ b₁.hash ≠ b₂.hash

theorem not_differsAt_of_longest_le {logs : List (List Block)} {i : Nat}
    (h : longest logs ≤ i) : ¬ DiffersAt logs i := by
  rintro ⟨l₁, h₁, -, -, b₁, -, hb₁, -⟩
  have := (longest_le_iff logs i).1 h l₁ h₁
  simp [List.getElem?_eq_none this] at hb₁

/-! ## The inner loop -/

/-- One iteration of the inner loop of `checkCommits`: a replica with one node that executed an
`i`-th block clears `noCommits` and counts the block's hash in `commitCount`. -/
def countCommit (i : Nat) (acc : Bool × List Hash) : List (Node S) → Bool × List Hash
  | [node] =>
    match node.executedBlocks[i]? with
    | some b => (false, acc.2.insert b.hash)
    | none => acc
  | _ => acc

/-- `noCommits` and the keys of `commitCount` after the inner loop of `checkCommits` at `i`. -/
def commitsAt (replicas : List (List (Node S))) (i : Nat) : Bool × List Hash :=
  replicas.foldl (countCommit i) (true, [])

theorem foldl_countCommit_fst (i : Nat) :
    ∀ (replicas : List (List (Node S))) (acc : Bool × List Hash),
      (replicas.foldl (countCommit i) acc).1 = true ↔
        acc.1 = true ∧ ∀ l ∈ nonTwinLogs replicas, l.length ≤ i
  | [], _ => by simp [nonTwinLogs]
  | r :: rs, acc => by
    rw [List.foldl_cons, foldl_countCommit_fst i rs]
    match r with
    | [] | _ :: _ :: _ => simp [countCommit, nonTwinLogs]
    | [node] =>
      simp only [countCommit, nonTwinLogs, List.filterMap_cons, List.mem_cons,
        forall_eq_or_imp]
      cases h : node.executedBlocks[i]? with
      | none => simp_all [List.getElem?_eq_none_iff]
      | some b =>
        have : i < node.executedBlocks.length := by
          simpa using (List.getElem?_eq_some_iff.1 h).1
        simp only [Bool.false_eq_true, false_and, false_iff, not_and, not_forall]
        exact fun _ hle => absurd hle (Nat.not_le.2 this)

theorem mem_foldl_countCommit_snd (i : Nat) (h : Hash) :
    ∀ (replicas : List (List (Node S))) (acc : Bool × List Hash),
      h ∈ (replicas.foldl (countCommit i) acc).2 ↔
        h ∈ acc.2 ∨ ∃ l ∈ nonTwinLogs replicas, ∃ b, l[i]? = some b ∧ b.hash = h
  | [], _ => by simp [nonTwinLogs]
  | r :: rs, acc => by
    rw [List.foldl_cons, mem_foldl_countCommit_snd i h rs]
    match r with
    | [] | _ :: _ :: _ => simp [countCommit, nonTwinLogs]
    | [node] =>
      simp only [countCommit, nonTwinLogs, List.filterMap_cons, List.mem_cons,
        exists_eq_or_imp]
      cases node.executedBlocks[i]? with
      | none => simp
      | some b =>
        simp only [List.mem_insert_iff, Option.some.injEq, exists_eq_left', @eq_comm _ b.hash h]
        tauto

theorem nodup_foldl_countCommit_snd (i : Nat) :
    ∀ (replicas : List (List (Node S))) (acc : Bool × List Hash),
      acc.2.Nodup → (replicas.foldl (countCommit i) acc).2.Nodup
  | [], _, h => h
  | r :: rs, acc, h => by
    refine nodup_foldl_countCommit_snd i rs _ ?_
    match r with
    | [] | _ :: _ :: _ => exact h
    | [node] =>
      simp only [countCommit]
      cases node.executedBlocks[i]? with
      | some b => exact h.insert
      | none => exact h

/-- The inner loop leaves `noCommits` set exactly when no log reaches index `i`. -/
theorem commitsAt_fst (replicas : List (List (Node S))) (i : Nat) :
    (commitsAt replicas i).1 = decide (longest (nonTwinLogs replicas) ≤ i) := by
  apply Bool.eq_iff_iff.2
  rw [commitsAt, foldl_countCommit_fst, decide_eq_true_eq, longest_le_iff]
  simp

/-- The keys of `commitCount` are the hashes of the blocks the logs hold at index `i`. -/
theorem mem_commitsAt_snd (replicas : List (List (Node S))) (i : Nat) (h : Hash) :
    h ∈ (commitsAt replicas i).2 ↔
      ∃ l ∈ nonTwinLogs replicas, ∃ b, l[i]? = some b ∧ b.hash = h := by
  rw [commitsAt, mem_foldl_countCommit_snd]
  simp

theorem nodup_commitsAt_snd (replicas : List (List (Node S))) (i : Nat) :
    (commitsAt replicas i).2.Nodup :=
  nodup_foldl_countCommit_snd i replicas _ List.nodup_nil

/-- A duplicate-free list with an element `a` has length other than one iff it has an element
other than `a`. -/
theorem length_ne_one_iff {α : Type} {l : List α} {a : α} (hl : l.Nodup) (ha : a ∈ l) :
    l.length ≠ 1 ↔ ∃ b ∈ l, b ≠ a := by
  constructor
  · intro hne
    by_contra hall
    push_neg at hall
    have hsub : l.Subperm [a] := List.subperm_of_subset hl fun b hb => by simp [hall b hb]
    have := hsub.length_le
    have := List.length_pos_of_mem ha
    simp at *
    omega
  · rintro ⟨b, hb, hba⟩ hlen
    obtain ⟨x, rfl⟩ := List.length_eq_one.1 hlen
    simp_all

/-- Once some log reaches index `i`, `commitCount` has other than one key exactly when two logs
differ at `i`. -/
theorem commitsAt_length_ne_one_iff (replicas : List (List (Node S))) (i : Nat)
    (hi : i < longest (nonTwinLogs replicas)) :
    (commitsAt replicas i).2.length ≠ 1 ↔ DiffersAt (nonTwinLogs replicas) i := by
  obtain ⟨l, hl, hli⟩ : ∃ l ∈ nonTwinLogs replicas, i < l.length := by
    by_contra h
    push_neg at h
    exact absurd ((longest_le_iff _ i).2 h) (Nat.not_le.2 hi)
  have ha := (mem_commitsAt_snd replicas i _).2 ⟨l, hl, _, List.getElem?_eq_getElem hli, rfl⟩
  rw [length_ne_one_iff (nodup_commitsAt_snd replicas i) ha]
  constructor
  · rintro ⟨h, hh, hne⟩
    obtain ⟨l₂, hl₂, b₂, hb₂, rfl⟩ := (mem_commitsAt_snd replicas i h).1 hh
    exact ⟨l₂, hl₂, l, hl, b₂, _, hb₂, List.getElem?_eq_getElem hli, hne⟩
  · rintro ⟨l₁, hl₁, l₂, hl₂, b₁, b₂, hb₁, hb₂, hne⟩
    by_cases h₁ : b₁.hash = l[i].hash
    · exact ⟨b₂.hash, (mem_commitsAt_snd replicas i _).2 ⟨l₂, hl₂, b₂, hb₂, rfl⟩,
        fun h => hne (h₁.trans h.symm)⟩
    · exact ⟨b₁.hash, (mem_commitsAt_snd replicas i _).2 ⟨l₁, hl₁, b₁, hb₁, rfl⟩, h₁⟩

/-! ## The outer loop -/

/-- The outer loop of `checkCommits`, from index `i`. -/
def checkCommitsFrom (replicas : List (List (Node S))) (i : Nat) : Bool × Nat :=
  if hno : (commitsAt replicas i).1 then (true, i)
  else if (commitsAt replicas i).2.length ≠ 1 then (false, i)
  else checkCommitsFrom replicas (i + 1)
termination_by longest (nonTwinLogs replicas) - i
decreasing_by
  rw [commitsAt_fst, decide_eq_true_eq] at hno
  omega

/-- `checkCommits`. -/
def checkCommits (network : Network S M) : Bool × Nat :=
  checkCommitsFrom (network.replicas.map Prod.snd) 0

/-- A run of the outer loop that reports safety stops at the longest log, and no two logs differ
from its start on. -/
theorem checkCommitsFrom_eq_true (replicas : List (List (Node S))) (i k : Nat)
    (h : checkCommitsFrom replicas i = (true, k)) :
    k = max i (longest (nonTwinLogs replicas)) ∧
      ∀ j, i ≤ j → ¬ DiffersAt (nonTwinLogs replicas) j := by
  induction i using checkCommitsFrom.induct replicas with
  | case1 i hno =>
    rw [checkCommitsFrom, dif_pos hno] at h
    rw [commitsAt_fst, decide_eq_true_eq] at hno
    simp only [Prod.mk.injEq, true_and] at h
    subst h
    exact ⟨by omega, fun j hj => not_differsAt_of_longest_le (by omega)⟩
  | case2 i hno hne =>
    rw [checkCommitsFrom, dif_neg hno, if_pos hne] at h
    cases h
  | case3 i hno hone ih =>
    rw [checkCommitsFrom, dif_neg hno, if_neg hone] at h
    rw [commitsAt_fst, decide_eq_true_eq] at hno
    obtain ⟨rfl, hrest⟩ := ih h
    refine ⟨by omega, fun j hj => ?_⟩
    rcases Nat.eq_or_lt_of_le hj with hij | hj
    · subst hij
      exact fun hd => hone ((commitsAt_length_ne_one_iff replicas i (by omega)).2 hd)
    · exact hrest j hj

/-- A run of the outer loop that reports a violation stops at the first index from its start
at which two logs differ. -/
theorem checkCommitsFrom_eq_false (replicas : List (List (Node S))) (i k : Nat)
    (h : checkCommitsFrom replicas i = (false, k)) :
    i ≤ k ∧ DiffersAt (nonTwinLogs replicas) k ∧
      ∀ j, i ≤ j → j < k → ¬ DiffersAt (nonTwinLogs replicas) j := by
  induction i using checkCommitsFrom.induct replicas with
  | case1 i hno =>
    rw [checkCommitsFrom, dif_pos hno] at h
    cases h
  | case2 i hno hne =>
    rw [checkCommitsFrom, dif_neg hno, if_pos hne] at h
    rw [commitsAt_fst, decide_eq_true_eq] at hno
    simp only [Prod.mk.injEq, true_and] at h
    subst h
    exact ⟨le_rfl, (commitsAt_length_ne_one_iff replicas i (by omega)).1 hne,
      fun j hj hjk => absurd hjk (by omega)⟩
  | case3 i hno hone ih =>
    rw [checkCommitsFrom, dif_neg hno, if_neg hone] at h
    rw [commitsAt_fst, decide_eq_true_eq] at hno
    obtain ⟨hik, hk, hrest⟩ := ih h
    refine ⟨by omega, hk, fun j hj hjk => ?_⟩
    rcases Nat.eq_or_lt_of_le hj with hij | hj
    · subst hij
      exact fun hd => hone ((commitsAt_length_ne_one_iff replicas i (by omega)).2 hd)
    · exact hrest j hj hjk

theorem checkCommits_eq_true_iff (network : Network S M) :
    checkCommits network = (true, longest (nonTwinLogs (network.replicas.map Prod.snd))) ↔
      ∀ i, ¬ DiffersAt (nonTwinLogs (network.replicas.map Prod.snd)) i := by
  constructor
  · intro h i
    exact (checkCommitsFrom_eq_true _ 0 _ h).2 i (Nat.zero_le i)
  · intro hall
    rcases hc : checkCommits network with ⟨_ | _, k⟩
    · exact absurd (checkCommitsFrom_eq_false _ 0 k hc).2.1 (hall k)
    · rw [(checkCommitsFrom_eq_true _ 0 k hc).1, Nat.zero_max]

theorem checkCommits_eq_false_iff (network : Network S M) (i : Nat) :
    checkCommits network = (false, i) ↔
      DiffersAt (nonTwinLogs (network.replicas.map Prod.snd)) i ∧
        ∀ j < i, ¬ DiffersAt (nonTwinLogs (network.replicas.map Prod.snd)) j := by
  constructor
  · intro h
    obtain ⟨-, hi, hlt⟩ := checkCommitsFrom_eq_false _ 0 i h
    exact ⟨hi, fun j hj => hlt j (Nat.zero_le j) hj⟩
  · rintro ⟨hi, hlt⟩
    rcases hc : checkCommits network with ⟨_ | _, k⟩
    · obtain ⟨-, hk, hltk⟩ := checkCommitsFrom_eq_false _ 0 k hc
      rcases Nat.lt_trichotomy k i with hki | rfl | hik
      · exact absurd hk (hlt k hki)
      · rfl
      · exact absurd hi (hltk i (Nat.zero_le i) hik)
    · exact absurd hi ((checkCommitsFrom_eq_true _ 0 k hc).2 i (Nat.zero_le i))

/-- `checkCommits` reports safety, with the length of the longest log of a replica without
twins, exactly when those logs agree at every index; otherwise it reports the first index at
which two of them differ. So its result is a function of those logs alone. -/
theorem checkCommits_agreement (network : Network S M) :
    let logs := nonTwinLogs (network.replicas.map Prod.snd)
    (checkCommits network = (true, longest logs) ↔ ∀ i, ¬ DiffersAt logs i) ∧
    (∀ i, checkCommits network = (false, i) ↔ DiffersAt logs i ∧ ∀ j < i, ¬ DiffersAt logs j) ∧
    ∀ other : Network S M, nonTwinLogs (other.replicas.map Prod.snd) = logs →
      checkCommits other = checkCommits network := by
  refine ⟨checkCommits_eq_true_iff network, checkCommits_eq_false_iff network, ?_⟩
  intro other hlogs
  rcases hc : checkCommits network with ⟨_ | _, k⟩
  · rw [checkCommits_eq_false_iff, hlogs, ← checkCommits_eq_false_iff]
    exact hc
  · have hk : k = longest (nonTwinLogs (network.replicas.map Prod.snd)) := by
      rw [(checkCommitsFrom_eq_true _ 0 k hc).1, Nat.zero_max]
    have hall := (checkCommits_eq_true_iff network).1 (hk ▸ hc)
    rw [hk, ← hlogs]
    exact (checkCommits_eq_true_iff other).2 (hlogs ▸ hall)

end HotStuff.Twins
