import HotStuff.Basic
import HotStuff.Crypto.LRU
import Mathlib.Data.List.Sort

/-!
# The crypto cache

`cache.Sign`, `cache.Verify` and `cache.BatchVerify` keep, in the LRU state of
`HotStuff.Crypto.LRU`, a key for each signature the primitive produced or accepted, and answer
`true` for a stored key without asking the primitive. Every stored key is the key of an earlier
call that succeeded (`stored_run`) and, when `Sign` only returns valid signatures, of a pair or a
batch the primitive accepts (`justified_run`).

`BatchVerify` drops the slice `hasher.Sum(hash[:])` returns, so its key is 32 zero bytes and the
signature, whatever the batch. A key only ever answers for its own signature, so each answer of
`BatchVerify` is the primitive's while no earlier call succeeded with that signature
(`batchVerify_exact_of_fresh`). A key of `Verify` starts with the message's digest, so it is no
batch key unless that digest is 32 zero bytes: when SHA-256 has no collision on the messages
hashed and does not send the message to the zero digest, `Verify` answers exactly as the
primitive does (`verify_exact_of_digest_ne_zero`).

All of this needs a capacity of at least `1`. With less, `evict` removes the `Back()` of the empty
list at the first key a call would store, so a history runs through exactly when the primitive
fails every call (`run_newCache_of_nonpos`).
-/

namespace HotStuff

/-- A `map[hotstuff.ID][]byte` of messages to check against one aggregate signature. -/
abbrev Batch := List (ID × List UInt8)

/-- The `consensus.CryptoBase` the cache wraps. `sign` may read and update the primitive's own
state; `verify` and `batchVerify` are predicates. -/
structure CryptoBase (σ Sig : Type) where
  sign : σ → List UInt8 → σ × Except String Sig
  verify : Sig → List UInt8 → Bool
  batchVerify : Sig → Batch → Bool

/-- A call on the cache. -/
inductive Call (Sig : Type)
  | sign (message : List UInt8)
  | verify (signature : Sig) (message : List UInt8)
  | batchVerify (signature : Sig) (batch : Batch)

/-- What a call returns. -/
inductive Reply (Sig : Type)
  | signed (result : Except String Sig)
  | verified (ok : Bool)

/-- The cache's keys, as the `strings.Builder` writes them. -/
abbrev Key := List UInt8

section Cache

variable {σ Sig : Type} (sha256 : List UInt8 → Hash) (toBytes : Sig → List UInt8)

/-- The key of a signature over one message: `sha256.Sum256(message)`, then `sig.ToBytes()`. -/
def verifyKey (sig : Sig) (message : List UInt8) : Key := (sha256 message).bytes ++ toBytes sig

/-- What `BatchVerify` writes to its hasher: the messages in ascending id order. -/
def batchInput (batch : Batch) : List UInt8 :=
  ((batch.map Prod.fst).insertionSort (· ≤ ·)).flatMap fun id => (batch.lookup id).getD []

/-- The key of a signature over a batch. `hasher.Sum(hash[:])` returns `hash[:]` with the digest
appended, in a new slice that is dropped, so `hash` keeps its zero value. -/
def batchKey (sig : Sig) (batch : Batch) : Key :=
  let hash := Hash.zero
  let _sum := hash.bytes ++ (sha256 (batchInput batch)).bytes
  hash.bytes ++ toBytes sig

/-- What `Verify` and `BatchVerify` share: `true` for a stored key, otherwise the primitive's
answer `accepts`, storing the key when it is `true`. -/
def checkOrVerify (c : Cache Key) (key : Key) (accepts : Bool) : Option (Cache Key × Bool) :=
  match c.check key with
  | (true, c) => some (c, true)
  | (false, c) => if accepts then (c.insert key).map (·, true) else some (c, false)

variable (impl : CryptoBase σ Sig)

/-- `cache.Sign`: sign with the primitive, then store the key of the signature. -/
def sign (st : σ) (c : Cache Key) (message : List UInt8) :
    Option (σ × Cache Key × Except String Sig) :=
  match impl.sign st message with
  | (st', .error e) => some (st', c, .error e)
  | (st', .ok sig) =>
    (c.insert (verifyKey sha256 toBytes sig message)).map fun c => (st', c, .ok sig)

/-- `cache.Verify`. -/
def verify (c : Cache Key) (signature : Sig) (message : List UInt8) : Option (Cache Key × Bool) :=
  checkOrVerify c (verifyKey sha256 toBytes signature message) (impl.verify signature message)

/-- `cache.BatchVerify`. -/
def batchVerify (c : Cache Key) (signature : Sig) (batch : Batch) : Option (Cache Key × Bool) :=
  checkOrVerify c (batchKey sha256 toBytes signature batch) (impl.batchVerify signature batch)

/-- One call on the cache and the primitive's state. -/
def step (st : σ) (c : Cache Key) : Call Sig → Option (σ × Cache Key × Reply Sig)
  | .sign m => (sign sha256 toBytes impl st c m).map fun r => (r.1, r.2.1, .signed r.2.2)
  | .verify s m => (verify sha256 toBytes impl c s m).map fun r => (st, r.1, .verified r.2)
  | .batchVerify s b => (batchVerify sha256 toBytes impl c s b).map fun r => (st, r.1, .verified r.2)

/-- A history of calls, each appended to the log with its reply; `none` if a call panics. -/
def run : (σ × Cache Key) × List (Call Sig × Reply Sig) → List (Call Sig) →
    Option ((σ × Cache Key) × List (Call Sig × Reply Sig))
  | r, [] => some r
  | ((st, c), log), call :: calls =>
    (step sha256 toBytes impl st c call).bind fun r =>
      run ((r.1, r.2.1), log ++ [(call, r.2.2)]) calls

/-- The key a call stored or found, when it succeeded. -/
def storedKey : Call Sig × Reply Sig → Option Key
  | (.sign m, .signed (.ok s)) => some (verifyKey sha256 toBytes s m)
  | (.verify s m, .verified true) => some (verifyKey sha256 toBytes s m)
  | (.batchVerify s b, .verified true) => some (batchKey sha256 toBytes s b)
  | _ => none

/-- Every stored key is the key of a logged call that succeeded. -/
def Stored (log : List (Call Sig × Reply Sig)) (c : Cache Key) : Prop :=
  ∀ k ∈ c.entries, ∃ e ∈ log, storedKey sha256 toBytes e = some k

/-- The messages a history hashes: those of its `Sign` and `Verify` calls. -/
def messages (calls : List (Call Sig)) : List (List UInt8) :=
  calls.filterMap fun
    | .sign m => some m
    | .verify _ m => some m
    | .batchVerify _ _ => none

/-- Every stored key is the key of a pair the primitive accepts, for a message of `calls`, or of
a batch the primitive accepts at a `BatchVerify` call of `calls`. -/
def Justified (calls : List (Call Sig)) (c : Cache Key) : Prop :=
  ∀ k ∈ c.entries,
    (∃ s m, m ∈ messages calls ∧ impl.verify s m = true ∧ k = verifyKey sha256 toBytes s m) ∨
      ∃ s b, Call.batchVerify s b ∈ calls ∧ impl.batchVerify s b = true ∧
        k = batchKey sha256 toBytes s b

/-- SHA-256 sends distinct messages of `ms` to distinct digests. -/
def CollisionFree (ms : List (List UInt8)) : Prop :=
  ∀ m₁ ∈ ms, ∀ m₂ ∈ ms, sha256 m₁ = sha256 m₂ → m₁ = m₂

/-- The signature a call succeeded with: the one `Sign` returned, or the one a `Verify` or
`BatchVerify` that returned `true` was given. -/
def succeededWith : Call Sig × Reply Sig → Option Sig
  | (.sign _, .signed (.ok s)) => some s
  | (.verify s _, .verified true) => some s
  | (.batchVerify s _, .verified true) => some s
  | _ => none

/-! ## Every call completes -/

section Spec

variable {sha256 toBytes impl}

/-- `checkOrVerify` never panics on a well-formed state, keeps it well formed, and answers
whether the key is stored or the primitive accepts. -/
theorem checkOrVerify_spec {c : Cache Key} (hc : c.WellFormed) (key : Key) (accepts : Bool) :
    ∃ c', checkOrVerify c key accepts = some (c', decide (key ∈ c.entries) || accepts) ∧
      c'.WellFormed := by
  have hw := hc.check key
  have hb := Cache.fst_check c key
  unfold checkOrVerify
  rcases h : c.check key with ⟨_ | _, c₁⟩ <;> rw [h] at hw hb <;> simp only at hw hb ⊢
  · cases accepts
    · exact ⟨c₁, by simp [← hb], hw⟩
    · obtain ⟨c', h', hw'⟩ := hw.insert key
      exact ⟨c', by simp [h', ← hb], hw'⟩
  · exact ⟨c₁, by simp [← hb], hw⟩

/-- `checkOrVerify` stores no key but its own, and that one only when the primitive accepts. -/
theorem mem_entries_of_checkOrVerify {c c' : Cache Key} {key k : Key} {accepts ok : Bool}
    (h : checkOrVerify c key accepts = some (c', ok)) (hk : k ∈ c'.entries) :
    (k = key ∧ accepts = true ∧ ok = true) ∨ k ∈ c.entries := by
  unfold checkOrVerify at h
  rcases hc : c.check key with ⟨_ | _, c₁⟩ <;> rw [hc] at h <;> simp only at h
  · have he : c₁.entries = c.entries := by simpa [hc] using Cache.entries_check c key
    cases accepts
    · cases h; exact .inr (he ▸ hk)
    · obtain ⟨c₂, h₂, h₂'⟩ := Option.map_eq_some'.1 h
      cases h₂'
      exact (Cache.mem_entries_of_insert h₂ hk).imp (fun hk => ⟨hk, rfl, rfl⟩) (he ▸ ·)
  · cases h
    have he : c'.entries = c.entries := by simpa [hc] using Cache.entries_check c key
    exact .inr (he ▸ hk)

theorem step_wellFormed {st : σ} {c : Cache Key} (hc : c.WellFormed) :
    ∀ call : Call Sig, ∃ r, step sha256 toBytes impl st c call = some r ∧ r.2.1.WellFormed
  | .sign m => by
    rcases hs : impl.sign st m with ⟨st', e | sig⟩
    · exact ⟨(st', c, .signed (.error e)), by simp [step, sign, hs], hc⟩
    · obtain ⟨c', h', hw'⟩ := hc.insert (verifyKey sha256 toBytes sig m)
      exact ⟨(st', c', .signed (.ok sig)), by simp [step, sign, hs, h'], hw'⟩
  | .verify s m => by
    obtain ⟨c', h', hw'⟩ := checkOrVerify_spec hc (verifyKey sha256 toBytes s m) (impl.verify s m)
    exact ⟨_, by rw [step, verify, h']; rfl, hw'⟩
  | .batchVerify s b => by
    obtain ⟨c', h', hw'⟩ :=
      checkOrVerify_spec hc (batchKey sha256 toBytes s b) (impl.batchVerify s b)
    exact ⟨_, by rw [step, batchVerify, h']; rfl, hw'⟩

/-- Every history from a well-formed state runs to completion. -/
theorem run_wellFormed : ∀ (calls : List (Call Sig)) {st : σ} {c : Cache Key}
    {log : List (Call Sig × Reply Sig)}, c.WellFormed →
      ∃ r, run sha256 toBytes impl ((st, c), log) calls = some r ∧ r.1.2.WellFormed
  | [], _, _, _, hc => ⟨_, rfl, hc⟩
  | call :: calls, st, c, log, hc => by
    obtain ⟨r, h, hw⟩ : ∃ r, step sha256 toBytes impl st c call = some r ∧ r.2.1.WellFormed :=
      step_wellFormed hc call
    obtain ⟨r', h', hw'⟩ : ∃ r', run sha256 toBytes impl ((r.1, r.2.1), log ++ [(call, r.2.2)])
        calls = some r' ∧ r'.1.2.WellFormed := run_wellFormed calls hw
    exact ⟨r', by simp [run, h, h'], hw'⟩

/-- A property of the log and the LRU state that every call keeps holds after every history. -/
theorem run_inv (P : List (Call Sig × Reply Sig) → Cache Key → Prop)
    (hstep : ∀ {st : σ} {c log call r}, P log c → step sha256 toBytes impl st c call = some r →
      P (log ++ [(call, r.2.2)]) r.2.1) :
    ∀ (calls : List (Call Sig)) {st c log r}, P log c →
      run sha256 toBytes impl ((st, c), log) calls = some r → P r.2 r.1.2
  | [], _, _, _, _, hP, h => by cases h; exact hP
  | call :: calls, st, c, log, r, hP, h => by
    obtain ⟨r₁, h₁, h₂⟩ := Option.bind_eq_some.1 h
    exact run_inv P hstep calls (hstep hP h₁) h₂

/-- The log of a history holds its calls in order. -/
theorem run_log : ∀ (calls : List (Call Sig)) {st : σ} {c log r},
    run sha256 toBytes impl ((st, c), log) calls = some r → r.2.map Prod.fst = log.map Prod.fst ++ calls
  | [], _, _, _, _, h => by cases h; simp
  | call :: calls, _, _, _, _, h => by
    obtain ⟨r₁, -, h₂⟩ := Option.bind_eq_some.1 h
    simp [run_log calls h₂]

/-- What a call adds to the stored keys: only the key of its own success, and only after the
primitive produced or accepted the signature in it. -/
theorem mem_entries_step {st : σ} {c : Cache Key} {call : Call Sig} {r} {k : Key}
    (hs : step sha256 toBytes impl st c call = some r) (hk : k ∈ r.2.1.entries) :
    k ∈ c.entries ∨ storedKey sha256 toBytes (call, r.2.2) = some k ∧
      ((∃ m s, call = .sign m ∧ (impl.sign st m).2 = .ok s ∧ k = verifyKey sha256 toBytes s m) ∨
        (∃ s m, call = .verify s m ∧ impl.verify s m = true ∧ k = verifyKey sha256 toBytes s m) ∨
        ∃ s b, call = .batchVerify s b ∧ impl.batchVerify s b = true ∧
          k = batchKey sha256 toBytes s b) := by
  cases call with
  | sign m =>
    rcases hsig : impl.sign st m with ⟨st', e | sig⟩ <;>
      simp only [step, sign, hsig, Option.map_map, Option.map_some'] at hs
    · cases hs; exact .inl hk
    · obtain ⟨c', h', rfl⟩ := Option.map_eq_some'.1 hs
      exact (Cache.mem_entries_of_insert h' hk).symm.imp_right fun hk =>
        ⟨by simp [storedKey, hk], .inl ⟨m, sig, rfl, by simp [hsig], hk⟩⟩
  | verify s m =>
    obtain ⟨⟨c', ok⟩, h', rfl⟩ := Option.map_eq_some'.1 hs
    exact (mem_entries_of_checkOrVerify h' hk).symm.imp_right fun ⟨hk, hv, hok⟩ =>
      ⟨by simp [storedKey, hk, hok], .inr (.inl ⟨s, m, rfl, hv, hk⟩)⟩
  | batchVerify s b =>
    obtain ⟨⟨c', ok⟩, h', rfl⟩ := Option.map_eq_some'.1 hs
    exact (mem_entries_of_checkOrVerify h' hk).symm.imp_right fun ⟨hk, hv, hok⟩ =>
      ⟨by simp [storedKey, hk, hok], .inr (.inr ⟨s, b, rfl, hv, hk⟩)⟩

theorem stored_step {st : σ} {c : Cache Key} {log : List (Call Sig × Reply Sig)} {call r}
    (h : Stored sha256 toBytes log c) (hs : step sha256 toBytes impl st c call = some r) :
    Stored sha256 toBytes (log ++ [(call, r.2.2)]) r.2.1 := fun k hk =>
  match mem_entries_step hs hk with
  | .inl hk => (h k hk).imp fun _ he => ⟨List.mem_append_left _ he.1, he.2⟩
  | .inr ⟨he, _⟩ => ⟨_, List.mem_append_right _ (List.mem_singleton_self _), he⟩

/-- Every key stored after a history from `NewCache` is the key of a call of it that succeeded. -/
theorem stored_run {capacity : Int} {st₀ : σ} {calls : List (Call Sig)} {r}
    (h : run sha256 toBytes impl ((st₀, Cache.newCache capacity), []) calls = some r) :
    Stored sha256 toBytes r.2 r.1.2 :=
  run_inv _ (fun hP hs => stored_step hP hs) calls (fun k hk => by simp [Cache.newCache] at hk) h

theorem mem_messages {calls : List (Call Sig)} {m : List UInt8} :
    m ∈ messages calls ↔ Call.sign m ∈ calls ∨ ∃ s, Call.verify s m ∈ calls := by
  simp only [messages, List.mem_filterMap]
  constructor
  · rintro ⟨_ | ⟨s, m'⟩ | ⟨s, b⟩, hc, h⟩ <;> cases h
    · exact .inl hc
    · exact .inr ⟨s, hc⟩
  · rintro (hc | ⟨s, hc⟩)
    · exact ⟨_, hc, rfl⟩
    · exact ⟨_, hc, rfl⟩

theorem justified_step (hsign : ∀ st m st' s, impl.sign st m = (st', .ok s) → impl.verify s m = true)
    {st : σ} {c : Cache Key} {log : List (Call Sig × Reply Sig)} {call r}
    (h : Justified sha256 toBytes impl (log.map Prod.fst) c)
    (hs : step sha256 toBytes impl st c call = some r) :
    Justified sha256 toBytes impl ((log ++ [(call, r.2.2)]).map Prod.fst) r.2.1 := by
  intro k hk
  simp only [List.map_append, List.map_cons, List.map_nil]
  rcases mem_entries_step hs hk with hk | ⟨-, ⟨m, s, rfl, hsm, rfl⟩ | ⟨s, m, rfl, hv, rfl⟩ |
      ⟨s, b, rfl, hv, rfl⟩⟩
  · rcases h k hk with ⟨s, m, hm, hv, hk⟩ | ⟨s, b, hb, hv, hk⟩
    · exact .inl ⟨s, m, mem_messages.2 ((mem_messages.1 hm).imp (List.mem_append_left _)
        fun ⟨s', h'⟩ => ⟨s', List.mem_append_left _ h'⟩), hv, hk⟩
    · exact .inr ⟨s, b, List.mem_append_left _ hb, hv, hk⟩
  · exact .inl ⟨s, m, mem_messages.2 (.inl (by simp)), hsign st m _ s (by rw [← hsm]), rfl⟩
  · exact .inl ⟨s, m, mem_messages.2 (.inr ⟨s, by simp⟩), hv, rfl⟩
  · exact .inr ⟨s, b, by simp, hv, rfl⟩

/-- When `Sign` only returns valid signatures, every key stored after a history from `NewCache`
is the key of a pair or batch of that history that the primitive accepts. -/
theorem justified_run (hsign : ∀ st m st' s, impl.sign st m = (st', .ok s) → impl.verify s m = true)
    {capacity : Int} {st₀ : σ} {calls : List (Call Sig)} {r}
    (h : run sha256 toBytes impl ((st₀, Cache.newCache capacity), []) calls = some r) :
    Justified sha256 toBytes impl calls r.1.2 := by
  have := run_inv (fun log c => Justified sha256 toBytes impl (log.map Prod.fst) c)
    (fun hP hs => justified_step hsign hP hs) calls
    (fun k hk => by simp [Cache.newCache] at hk) h
  simpa [run_log calls h] using this

/-! ## A key answers for its own signature -/

theorem verifyKey_inj (htb : Function.Injective toBytes) {s s' : Sig} {m m' : List UInt8}
    (h : verifyKey sha256 toBytes s m = verifyKey sha256 toBytes s' m') :
    sha256 m = sha256 m' ∧ s = s' :=
  have h' := List.append_inj h (by simp [Hash.length_bytes])
  ⟨Hash.ext h'.1, htb h'.2⟩

theorem eq_of_verifyKey_eq_batchKey (htb : Function.Injective toBytes) {s s' : Sig}
    {m : List UInt8} {b : Batch}
    (h : verifyKey sha256 toBytes s m = batchKey sha256 toBytes s' b) : s = s' :=
  htb (List.append_inj h (by simp [Hash.length_bytes, Hash.zero])).2

/-- A message's key is a batch's key only when the message's digest is the zero digest that every
batch key starts with. -/
theorem digest_eq_zero_of_verifyKey_eq_batchKey {s s' : Sig} {m : List UInt8} {b : Batch}
    (h : verifyKey sha256 toBytes s m = batchKey sha256 toBytes s' b) : sha256 m = Hash.zero :=
  Hash.ext (List.append_inj h (by simp [Hash.length_bytes, Hash.zero])).1

theorem eq_of_batchKey_eq (htb : Function.Injective toBytes) {s s' : Sig} {b b' : Batch}
    (h : batchKey sha256 toBytes s b = batchKey sha256 toBytes s' b') : s = s' :=
  htb (List.append_inj h rfl).2

/-- A stored key of a batch with signature `s` was stored by a call that succeeded with `s`. -/
theorem succeededWith_of_storedKey (htb : Function.Injective toBytes) {e : Call Sig × Reply Sig}
    {s : Sig} {b : Batch} (h : storedKey sha256 toBytes e = some (batchKey sha256 toBytes s b)) :
    succeededWith e = some s := by
  unfold storedKey at h
  split at h <;> simp only [Option.some.injEq, reduceCtorEq] at h <;> simp only [succeededWith]
  · exact congrArg some (eq_of_verifyKey_eq_batchKey htb h)
  · exact congrArg some (eq_of_verifyKey_eq_batchKey htb h)
  · exact congrArg some (eq_of_batchKey_eq htb h)

end Spec

section Exact

/-- A digest to instantiate the theorems with in the witnesses below: the message's first 32 bytes,
padded with zeros. It has no collision on the short messages they hash. -/
def toyDigest (m : List UInt8) : Hash := ⟨(m ++ List.replicate 32 0).take 32, by simp⟩

/-- A primitive that accepts one batch, `{1: [1, 2], 2: [3]}`, and nothing else. -/
def acceptsFirstSplit : CryptoBase Unit Key :=
  ⟨fun st _ => (st, .error "no key"), fun _ _ => false, fun _ b => b == [(1, [1, 2]), (2, [3])]⟩

/-- A primitive whose signature over a message is the message. -/
def signsByEcho : CryptoBase Unit Key :=
  ⟨fun st m => (st, .ok m), fun s m => s == m, fun _ _ => false⟩

variable {σ Sig : Type} (sha256 : List UInt8 → Hash) (toBytes : Sig → List UInt8)
  (impl : CryptoBase σ Sig)

/-- After any history from `NewCache`, `BatchVerify` completes; it answers `true` whenever the
primitive accepts, and exactly as the primitive does when no earlier call succeeded with the same
signature. -/
theorem batchVerify_exact_of_fresh (htb : Function.Injective toBytes) (capacity : Int)
    (hcap : 1 ≤ capacity) (st₀ : σ) (calls : List (Call Sig)) (sig : Sig) (batch : Batch) :
    ∃ st c log, run sha256 toBytes impl ((st₀, Cache.newCache capacity), []) calls =
        some ((st, c), log) ∧
      (batchVerify sha256 toBytes impl c sig batch).isSome ∧
      (impl.batchVerify sig batch = true →
        (batchVerify sha256 toBytes impl c sig batch).map Prod.snd = some true) ∧
      ((∀ e ∈ log, succeededWith e ≠ some sig) →
        (batchVerify sha256 toBytes impl c sig batch).map Prod.snd =
          some (impl.batchVerify sig batch)) := by
  obtain ⟨⟨⟨st, c⟩, log⟩, hrun, (hw : c.WellFormed)⟩ : ∃ r, run sha256 toBytes impl
      ((st₀, Cache.newCache capacity), []) calls = some r ∧ r.1.2.WellFormed :=
    run_wellFormed calls (Cache.WellFormed.newCache hcap)
  obtain ⟨c', hc', -⟩ :=
    checkOrVerify_spec hw (batchKey sha256 toBytes sig batch) (impl.batchVerify sig batch)
  have hbv : batchVerify sha256 toBytes impl c sig batch = some (c', _) := hc'
  refine ⟨st, c, log, hrun, by simp [hbv], fun hb => by simp [hbv, hb], fun hfresh => ?_⟩
  have hnot : batchKey sha256 toBytes sig batch ∉ c.entries := fun hk => by
    obtain ⟨e, he, hke⟩ := stored_run hrun _ hk
    exact hfresh e he (succeededWith_of_storedKey htb hke)
  simp [hbv, hnot]

theorem batchVerify_exact_of_fresh_eight : Function.Injective (id : Key → Key) ∧ (1 : Int) ≤ 100 ∧
    ∃ st c log, run toyDigest id acceptsFirstSplit (((), Cache.newCache 100), [])
        [.batchVerify [7] [(1, [1, 2]), (2, [3])]] = some ((st, c), log) ∧
      (batchVerify toyDigest id acceptsFirstSplit c [8] [(1, [1])]).isSome ∧
      (acceptsFirstSplit.batchVerify [8] [(1, [1])] = true →
        (batchVerify toyDigest id acceptsFirstSplit c [8] [(1, [1])]).map Prod.snd = some true) ∧
      ((∀ e ∈ log, succeededWith e ≠ some [8]) →
        (batchVerify toyDigest id acceptsFirstSplit c [8] [(1, [1])]).map Prod.snd =
          some (acceptsFirstSplit.batchVerify [8] [(1, [1])])) :=
  ⟨Function.injective_id, by decide,
    batchVerify_exact_of_fresh toyDigest id acceptsFirstSplit Function.injective_id 100 (by decide)
      () _ _ _⟩

/-- A success for one batch answers `true` for another batch with the same signature, which the
primitive rejects; the two batches even hold the same bytes, split differently. -/
theorem batchVerify_accepts_other_split :
    batchInput [(1, [1, 2]), (2, [3])] = batchInput [(1, [1]), (2, [2, 3])] ∧
      acceptsFirstSplit.batchVerify [7] [(1, [1]), (2, [2, 3])] = false ∧
      ((run toyDigest id acceptsFirstSplit (((), Cache.newCache 100), [])
          [.batchVerify [7] [(1, [1, 2]), (2, [3])]]).bind fun r =>
        batchVerify toyDigest id acceptsFirstSplit r.1.2 [7] [(1, [1]), (2, [2, 3])]).map Prod.snd =
        some true := by
  decide

/-- After any history from `NewCache` in which SHA-256 has no collision, `Verify(sig, message)`
completes and answers exactly as the primitive does, when `Sign` only returns valid signatures
and the message's digest is not the zero digest that every batch key starts with. -/
theorem verify_exact_of_digest_ne_zero
    (hsign : ∀ st m st' s, impl.sign st m = (st', .ok s) → impl.verify s m = true)
    (htb : Function.Injective toBytes) (capacity : Int) (hcap : 1 ≤ capacity) (st₀ : σ)
    (calls : List (Call Sig)) (sig : Sig) (message : List UInt8)
    (hsha : CollisionFree sha256 (message :: messages calls))
    (hzero : sha256 message ≠ Hash.zero) :
    ∃ st c log, run sha256 toBytes impl ((st₀, Cache.newCache capacity), []) calls =
        some ((st, c), log) ∧
      (verify sha256 toBytes impl c sig message).map Prod.snd = some (impl.verify sig message) := by
  obtain ⟨⟨⟨st, c⟩, log⟩, hrun, (hw : c.WellFormed)⟩ : ∃ r, run sha256 toBytes impl
      ((st₀, Cache.newCache capacity), []) calls = some r ∧ r.1.2.WellFormed :=
    run_wellFormed calls (Cache.WellFormed.newCache hcap)
  obtain ⟨c', hc', -⟩ :=
    checkOrVerify_spec hw (verifyKey sha256 toBytes sig message) (impl.verify sig message)
  refine ⟨st, c, log, hrun, ?_⟩
  -- a stored key of `Verify(sig, message)` was stored for this very pair, which the primitive
  -- accepts
  have hval : verifyKey sha256 toBytes sig message ∈ c.entries → impl.verify sig message = true :=
    fun hk => by
    rcases justified_run hsign hrun _ hk with ⟨s, m, hm, hv, hkey⟩ | ⟨s, b, -, -, hkey⟩
    · obtain ⟨hd, rfl⟩ := verifyKey_inj htb hkey.symm
      rwa [hsha _ (List.mem_cons_self _ _) _ (List.mem_cons_of_mem _ hm) hd.symm]
    · exact absurd (digest_eq_zero_of_verifyKey_eq_batchKey hkey) hzero
  rw [verify, hc']
  by_cases hk : verifyKey sha256 toBytes sig message ∈ c.entries <;> simp [hk, hval]

theorem verify_exact_of_digest_ne_zero_echo :
    (∀ st m st' s, signsByEcho.sign st m = (st', .ok s) → signsByEcho.verify s m = true) ∧
      Function.Injective (id : Key → Key) ∧ (1 : Int) ≤ 100 ∧
      CollisionFree toyDigest ([2] :: messages [.sign [1], .verify [1] [2]]) ∧
      toyDigest [2] ≠ Hash.zero ∧
      ∃ st c log, run toyDigest id signsByEcho (((), Cache.newCache 100), [])
          [.sign [1], .verify [1] [2]] = some ((st, c), log) ∧
        (verify toyDigest id signsByEcho c [1] [2]).map Prod.snd =
          some (signsByEcho.verify [1] [2]) :=
  have hsign : ∀ st m st' s, signsByEcho.sign st m = (st', .ok s) → signsByEcho.verify s m = true :=
    fun _ _ _ _ h => by
      simp only [signsByEcho, Prod.mk.injEq, Except.ok.injEq] at h
      simp [signsByEcho, h.2]
  have hsha : CollisionFree toyDigest ([2] :: messages [.sign [1], .verify [1] [2]]) := by
    unfold CollisionFree; decide
  ⟨hsign, Function.injective_id, by decide, hsha, by decide,
    verify_exact_of_digest_ne_zero toyDigest id signsByEcho hsign Function.injective_id 100
      (by decide) () _ _ _ hsha (by decide)⟩

end Exact

/-! ## A cache with no room -/

section NoRoom

/-- What the primitive alone answers a call: its state after it, and the reply. -/
def primitive (st : σ) : Call Sig → σ × Reply Sig
  | .sign m => ((impl.sign st m).1, .signed (impl.sign st m).2)
  | .verify s m => (st, .verified (impl.verify s m))
  | .batchVerify s b => (st, .verified (impl.batchVerify s b))

/-- Whether the primitive alone fails every call of a history. -/
def rejectsAll : σ → List (Call Sig) → Bool
  | _, [] => true
  | st, call :: calls =>
    (succeededWith (call, (primitive impl st call).2)).isNone && rejectsAll (primitive impl st call).1 calls

variable {sha256 toBytes impl} {capacity : Int}

theorem check_newCache {K : Type} [DecidableEq K] (k : K) :
    (Cache.newCache capacity : Cache K).check k = (false, Cache.newCache capacity) := rfl

/-- With `capacity ≤ 0`, `evict` finds `len(entries) < capacity` false on the empty cache and
removes the `Back()` of an empty list: the first insert panics. -/
theorem insert_newCache_of_nonpos {K : Type} [DecidableEq K] (hcap : capacity ≤ 0) (k : K) :
    (Cache.newCache capacity : Cache K).insert k = none := by
  simp [Cache.insert, Cache.evict, Cache.newCache, not_lt.2 hcap]

/-- A call on `NewCache(capacity)`, `capacity ≤ 0`: it panics where the primitive succeeds, and
otherwise answers as the primitive does and leaves the cache as it was. -/
theorem step_newCache_of_nonpos (hcap : capacity ≤ 0) (st : σ) :
    ∀ call : Call Sig, step sha256 toBytes impl st (Cache.newCache capacity) call =
      if (succeededWith (call, (primitive impl st call).2)).isNone then
        some ((primitive impl st call).1, Cache.newCache capacity, (primitive impl st call).2)
      else none
  | .sign m => by
    rcases hs : impl.sign st m with ⟨st', e | sig⟩ <;>
      simp [step, sign, primitive, succeededWith, hs, insert_newCache_of_nonpos hcap]
  | .verify s m => by
    cases hv : impl.verify s m <;>
      simp [step, verify, checkOrVerify, primitive, succeededWith, hv, check_newCache,
        insert_newCache_of_nonpos hcap]
  | .batchVerify s b => by
    cases hv : impl.batchVerify s b <;>
      simp [step, batchVerify, checkOrVerify, primitive, succeededWith, hv, check_newCache,
        insert_newCache_of_nonpos hcap]

variable (sha256 toBytes) in
theorem run_newCache_of_nonpos_log (hcap : capacity ≤ 0) :
    ∀ (calls : List (Call Sig)) (st : σ) (log : List (Call Sig × Reply Sig)),
      (run sha256 toBytes impl ((st, Cache.newCache capacity), log) calls).isSome =
          rejectsAll impl st calls ∧
        ∀ r, run sha256 toBytes impl ((st, Cache.newCache capacity), log) calls = some r →
          r.1.2 = Cache.newCache capacity ∧ ∀ e ∈ r.2, e ∈ log ∨ succeededWith e = none
  | [], _, _ => ⟨rfl, fun r h => by cases h; exact ⟨rfl, fun e he => .inl he⟩⟩
  | call :: calls, st, log => by
    rw [run, step_newCache_of_nonpos hcap, rejectsAll]
    split
    · rename_i hfail
      obtain ⟨ih₁, ih₂⟩ := run_newCache_of_nonpos_log hcap calls (primitive impl st call).1
        (log ++ [(call, (primitive impl st call).2)])
      refine ⟨by simpa [hfail] using ih₁, fun r h => ?_⟩
      obtain ⟨hc, hlog⟩ := ih₂ r h
      refine ⟨hc, fun e he => (hlog e he).elim (fun he => ?_) .inr⟩
      rcases List.mem_append.1 he with he | he
      · exact .inl he
      · exact .inr (List.mem_singleton.1 he ▸ Option.isNone_iff_eq_none.1 hfail)
    · simp [‹_›]

/-- For a cache that `NewCache` built with a capacity of at most `0`, every primitive and every
history of calls: the history runs through exactly when the primitive alone fails every call, and
then the cache stays empty and every reply is a failure. The first `Sign` that returns a
signature, or `Verify` or `BatchVerify` the primitive accepts, panics in `evict`. -/
theorem run_newCache_of_nonpos (hcap : capacity ≤ 0) (st : σ) (calls : List (Call Sig)) :
    (run sha256 toBytes impl ((st, Cache.newCache capacity), []) calls).isSome =
        rejectsAll impl st calls ∧
      ∀ r, run sha256 toBytes impl ((st, Cache.newCache capacity), []) calls = some r →
        r.1.2 = Cache.newCache capacity ∧ ∀ e ∈ r.2, succeededWith e = none := by
  obtain ⟨h₁, h₂⟩ := run_newCache_of_nonpos_log sha256 toBytes hcap calls st []
  exact ⟨h₁, fun r h => ⟨(h₂ r h).1, fun e he => ((h₂ r h).2 e he).resolve_left (by simp)⟩⟩

/-- A cache of capacity `0` over the echoing primitive: a rejected `Verify`, then a `Sign`. -/
theorem run_newCache_of_nonpos_zero :
    (0 : Int) ≤ 0 ∧
    (run toyDigest id signsByEcho (((), Cache.newCache 0), []) [.verify [1] [2], .sign [1]]).isSome =
        rejectsAll signsByEcho () [.verify [1] [2], .sign [1]] ∧
      ∀ r, run toyDigest id signsByEcho (((), Cache.newCache 0), []) [.verify [1] [2], .sign [1]] =
          some r → r.1.2 = Cache.newCache 0 ∧ ∀ e ∈ r.2, succeededWith e = none :=
  ⟨le_rfl, run_newCache_of_nonpos le_rfl () _⟩

end NoRoom

end Cache

end HotStuff
