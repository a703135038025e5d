import HotStuff.Basic
import Mathlib.Data.List.Perm.Basic

/-!
# Fetching a block from the replicas

`Fetch` asks the replicas of a configuration for the block with a hash, and gorums hands the
replies that came in to `FetchQF`. It takes the first reply, in the order `range` visits the
replies map, whose block has the requested hash. So it accepts exactly when some reply holds
such a block, it returns nothing else, and whatever order the map is visited in it returns the
same block when the replies agree on the block of that hash (`fetchQF_spec`).
-/

namespace HotStuff.Backend

variable {β : Type}

/-- `copy(h[:], in.GetHash())`: the first 32 bytes of the requested hash, zeros after a shorter
one. -/
def copyHash (b : Bytes) : Hash := ⟨(b ++ List.replicate 32 0).take 32, by simp⟩

/-- `FetchQF`, its `range` visiting the replies in order; `hashOf b` is
`hotstuffpb.BlockFromProto(b).Hash()`. `none` is `nil, false`. -/
def fetchQF (hashOf : β → Hash) (hash : Bytes) : List (UInt32 × β) → Option β
  | [] => none
  | (_, b) :: rest => if copyHash hash = hashOf b then some b else fetchQF hashOf hash rest

/-- `Fetch` sends `hash[:]`, which `FetchQF` copies back whole. -/
@[simp] theorem copyHash_bytes (h : Hash) : copyHash h.bytes = h :=
  Hash.ext (List.take_left' h.length_bytes)

variable (hashOf : β → Hash) (hash : Bytes)

theorem fetchQF_isSome_iff :
    ∀ replies : List (UInt32 × β),
      (fetchQF hashOf hash replies).isSome ↔ ∃ r ∈ replies, hashOf r.2 = copyHash hash
  | [] => by simp [fetchQF]
  | (u, b) :: rest => by
    rw [fetchQF]
    split
    · exact iff_of_true rfl ⟨(u, b), List.mem_cons_self _ _, (‹copyHash hash = hashOf b›).symm⟩
    · rename_i hne
      simp only [fetchQF_isSome_iff rest, List.mem_cons, exists_eq_or_imp, Ne.symm hne, false_or]

theorem fetchQF_eq_some :
    ∀ {replies : List (UInt32 × β)} {b : β}, fetchQF hashOf hash replies = some b →
      hashOf b = copyHash hash ∧ ∃ u, (u, b) ∈ replies
  | [], _, h => nomatch h
  | (u, b') :: rest, b, h => by
    rw [fetchQF] at h
    split at h
    · rename_i hb
      cases h
      exact ⟨hb.symm, u, List.mem_cons_self _ _⟩
    · obtain ⟨hb, u', hu'⟩ := fetchQF_eq_some h
      exact ⟨hb, u', List.mem_cons_of_mem _ hu'⟩

/-- For the hash of every block `Fetch` asks for and every replies map: `FetchQF` accepts
exactly when some reply holds a block with that hash; what it returns is such a block, from one
of the replies; and when the replies agree on the block with that hash, every order in which
`range` visits the map gives the same result. -/
theorem fetchQF_spec (h : Hash) {replies₁ replies₂ : List (UInt32 × β)}
    (hp : replies₁.Perm replies₂) :
    ((fetchQF hashOf h.bytes replies₁).isSome ↔ ∃ r ∈ replies₁, hashOf r.2 = h) ∧
      (∀ b, fetchQF hashOf h.bytes replies₁ = some b → hashOf b = h ∧ ∃ u, (u, b) ∈ replies₁) ∧
      ((∀ r₁ ∈ replies₁, ∀ r₂ ∈ replies₁, hashOf r₁.2 = h → hashOf r₂.2 = h → r₁.2 = r₂.2) →
        fetchQF hashOf h.bytes replies₁ = fetchQF hashOf h.bytes replies₂) := by
  have hiff := fun l => (fetchQF_isSome_iff hashOf h.bytes l).trans (by rw [copyHash_bytes])
  refine ⟨hiff replies₁, fun b hb => by simpa using fetchQF_eq_some hashOf h.bytes hb,
    fun hagree => ?_⟩
  cases h₁ : fetchQF hashOf h.bytes replies₁ with
  | none =>
    refine (Option.not_isSome_iff_eq_none.1 fun h₂ => ?_).symm
    obtain ⟨r, hr, hrh⟩ := (hiff replies₂).1 h₂
    simpa [h₁] using (hiff replies₁).2 ⟨r, hp.mem_iff.2 hr, hrh⟩
  | some b₁ =>
    obtain ⟨hb₁, u₁, hu₁⟩ := fetchQF_eq_some hashOf h.bytes h₁
    obtain ⟨b₂, h₂⟩ := Option.isSome_iff_exists.1 ((hiff replies₂).2 ⟨_, hp.mem_iff.1 hu₁, by
      simpa using hb₁⟩)
    obtain ⟨hb₂, u₂, hu₂⟩ := fetchQF_eq_some hashOf h.bytes h₂
    rw [h₂]
    exact congrArg some (hagree _ hu₁ _ (hp.mem_iff.2 hu₂) (by simpa using hb₁) (by simpa using hb₂))

/-- Two replicas that return the requested block, visited in both orders. -/
theorem fetchQF_spec_two_replies :
    ([((1 : UInt32), Hash.zero), (2, Hash.zero)].Perm [(2, Hash.zero), (1, Hash.zero)]) ∧
    (((fetchQF id Hash.zero.bytes [(1, Hash.zero), (2, Hash.zero)]).isSome ↔
        ∃ r ∈ [((1 : UInt32), Hash.zero), (2, Hash.zero)], id r.2 = Hash.zero) ∧
      (∀ b, fetchQF id Hash.zero.bytes [(1, Hash.zero), (2, Hash.zero)] = some b →
        id b = Hash.zero ∧ ∃ u, (u, b) ∈ [((1 : UInt32), Hash.zero), (2, Hash.zero)]) ∧
      ((∀ r₁ ∈ [((1 : UInt32), Hash.zero), (2, Hash.zero)],
          ∀ r₂ ∈ [((1 : UInt32), Hash.zero), (2, Hash.zero)],
          id r₁.2 = Hash.zero → id r₂.2 = Hash.zero → r₁.2 = r₂.2) →
        fetchQF id Hash.zero.bytes [(1, Hash.zero), (2, Hash.zero)] =
          fetchQF id Hash.zero.bytes [(2, Hash.zero), (1, Hash.zero)])) :=
  ⟨by decide, fetchQF_spec id Hash.zero (by decide)⟩

end HotStuff.Backend
