import HotStuff.Twins.Json

/-!
# The commands of a twins scenario

`createTwinsNodes` gives the `commandModule` of every node one shared `commandGenerator`, so the
`Get`s of all nodes, in whatever order the nodes make them, take the commands
`strconv.FormatUint` writes for one `uint64` counter, one after the other (`take_eq`). The
commands are pairwise distinct exactly as long as the counter does not wrap: for at most `2^64`
calls (`take_nodup_iff`, and `take_commands` for both).
-/

namespace HotStuff.Twins

/-! ## Decimal numbers -/

theorem spanDigits_decimal (n : Nat) : spanDigits 0 (decimal n) = (n, []) := by
  unfold decimal
  split
  · subst n
    rfl
  · have hlt : ∀ d ∈ (Nat.digits 10 n).reverse, d < 10 := fun d hd =>
      Nat.digits_lt_base (by norm_num) (List.mem_reverse.1 hd)
    have := spanDigits_append (r := []) (fun _ _ h => nomatch h) _ 0 hlt
    rwa [List.append_nil, foldl_reverse_eq_ofDigits, Nat.ofDigits_digits] at this

/-- `strconv.FormatUint` in base 10 writes distinct numbers differently. -/
theorem decimal_injective : Function.Injective decimal := fun n m h => by
  simpa [spanDigits_decimal] using congrArg (spanDigits 0) h

/-! ## The generator -/

/-- A `commandGenerator`: its counter `nextCmd`; its mutex only puts the calls in an order. -/
structure CommandGenerator where
  nextCmd : UInt64
deriving DecidableEq

namespace CommandGenerator

/-- `next`: the command `strconv.FormatUint(cg.nextCmd, 10)`, and the generator after
`cg.nextCmd++`. -/
def next (cg : CommandGenerator) : Bytes × CommandGenerator :=
  (decimal cg.nextCmd.toNat, ⟨cg.nextCmd + 1⟩)

/-- The commands that `k` calls of `commandModule.Get`, by whichever nodes, return in the order
of the calls, and the generator after them. -/
def take (cg : CommandGenerator) : Nat → List Bytes × CommandGenerator
  | 0 => ([], cg)
  | k + 1 =>
    let r := cg.next.2.take k
    (cg.next.1 :: r.1, r.2)

/-- The `i`-th call returns the counter it started from plus `i`, wrapped to 64 bits, and the
counter ends `k` further on. -/
theorem take_eq (k : Nat) : ∀ cg : CommandGenerator,
    (cg.take k).1 = (List.range k).map (fun i => decimal ((cg.nextCmd.toNat + i) % 2 ^ 64)) ∧
      (cg.take k).2.nextCmd.toNat = (cg.nextCmd.toNat + k) % 2 ^ 64 := by
  induction k with
  | zero => exact fun cg => ⟨rfl, (Nat.mod_eq_of_lt cg.nextCmd.toNat_lt_size).symm⟩
  | succ k ih =>
    intro cg
    obtain ⟨ih₁, ih₂⟩ := ih cg.next.2
    have hc : cg.next.2.nextCmd.toNat = (cg.nextCmd.toNat + 1) % 2 ^ 64 := toNat_add_one _
    have hlt : cg.nextCmd.toNat < 2 ^ 64 := cg.nextCmd.toNat_lt_size
    refine ⟨?_, by simp only [take, ih₂, hc]; omega⟩
    rw [show (cg.take (k + 1)).1 = cg.next.1 :: (cg.next.2.take k).1 from rfl, ih₁, hc,
      List.range_succ_eq_map, List.map_cons, List.map_map]
    exact congrArg₂ List.cons (congrArg decimal (by omega))
      (List.map_congr_left fun i _ => congrArg decimal (by omega))

/-- The commands of `k` calls of `Get`, from any state of the generator, are pairwise distinct
exactly when `k ≤ 2^64`: after `2^64` calls the counter has wrapped and the commands repeat. -/
theorem take_nodup_iff (cg : CommandGenerator) (k : Nat) :
    (cg.take k).1.Nodup ↔ k ≤ 2 ^ 64 := by
  rw [(take_eq k cg).1]
  constructor
  · intro h
    by_contra hk
    have h0 : 0 ∈ List.range k := List.mem_range.2 (by omega)
    have h1 : 2 ^ 64 ∈ List.range k := List.mem_range.2 (by omega)
    have := List.inj_on_of_nodup_map h h0 h1 (by simp)
    omega
  · intro hk
    refine (List.nodup_range k).map_on fun i hi j hj hij => ?_
    rw [List.mem_range] at hi hj
    have := decimal_injective hij
    omega

/-- For every state of the generator and every number `k` of calls of `Get`, by whichever nodes:
the commands are the decimal renderings of the counter and its `k - 1` successors modulo `2^64`,
the counter ends `k` further on, and the commands are pairwise distinct exactly when
`k ≤ 2^64`. -/
theorem take_commands (cg : CommandGenerator) (k : Nat) :
    (cg.take k).1 = (List.range k).map (fun i => decimal ((cg.nextCmd.toNat + i) % 2 ^ 64)) ∧
      (cg.take k).2.nextCmd.toNat = (cg.nextCmd.toNat + k) % 2 ^ 64 ∧
      ((cg.take k).1.Nodup ↔ k ≤ 2 ^ 64) :=
  ⟨(take_eq k cg).1, (take_eq k cg).2, take_nodup_iff cg k⟩

end CommandGenerator

end HotStuff.Twins
