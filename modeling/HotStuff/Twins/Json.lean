import HotStuff.Twins.Network
import Mathlib.Data.List.Sort
import Mathlib.Data.Nat.Digits

/-!
# Scenario files: the JSON of node sets and views

A `NodeSet` is written by `MarshalJSON` as the JSON array of its IDs in ascending order, and read
back by `UnmarshalJSON`, which adds every ID of such an array to the set. `encoding/json` does the
rest: it writes numbers in decimal and arrays without spaces, and reads whitespace, `null` and
integers that fit a `uint32`. The round trip gives every set back, the text depends only on the
set, and so every `View` of a scenario comes back with the same partitions
(`nodeSet_json_roundtrip`).
-/

namespace HotStuff.Twins

/-- The byte of an ASCII character. -/
def byte (c : Char) : UInt8 := c.toNat.toUInt8

/-! ## Writing -/

/-- The byte of the decimal digit `d`. -/
def digitByte (d : Nat) : UInt8 := (48 + d).toUInt8

/-- `strconv.AppendUint(nil, n, 10)`, which `encoding/json` writes a `uint32` with: `n` in
decimal, the most significant digit first. -/
def decimal (n : Nat) : Bytes :=
  if n = 0 then [digitByte 0] else (Nat.digits 10 n).reverse.map digitByte

/-- A JSON array of already encoded elements, as `encoding/json` writes one: no spaces. -/
def encodeList : List Bytes → Bytes
  | [] => [byte '[', byte ']']
  | x :: xs => byte '[' :: x ++ xs.flatMap (byte ',' :: ·) ++ [byte ']']

instance isTotal_uint32_le : IsTotal UInt32 (· ≤ ·) := ⟨UInt32.le_total⟩

instance isTrans_uint32_le : IsTrans UInt32 (· ≤ ·) := ⟨fun _ _ _ => UInt32.le_trans⟩

instance isAntisymm_uint32_lt : IsAntisymm UInt32 (· < ·) :=
  ⟨fun _ _ h h' => absurd h' (UInt32.lt_asymm h)⟩

/-- `NodeSet.MarshalJSON`: the IDs `maps.Keys` collects, in the order `range` visits the set,
sorted by `slices.Sort` (any sort gives the one ascending order of distinct IDs), written by
`json.Marshal` as a JSON array of numbers. -/
def NodeSet.marshalJSON (s : NodeSet) : Bytes :=
  encodeList ((s.ids.insertionSort (· ≤ ·)).map fun id => decimal id.toNat)

/-- `json.Marshal` of a `View`: its fields under their tags, in the order they are declared.
`partitions` is written as a JSON array; a nil slice would be written `null`, which reads back as
no partitions too. -/
def View.marshal (v : View) : Bytes :=
  bytes "\x7b\"leader\":" ++ decimal v.leader.toNat ++ bytes ",\"partitions\":" ++
    encodeList (v.partitions.map NodeSet.marshalJSON) ++ bytes "\x7d"

/-! ## Reading -/

/-- JSON's whitespace: space, tab, line feed and carriage return. -/
def isSpace (b : UInt8) : Bool := b = byte ' ' || b = byte '\t' || b = byte '\n' || b = byte '\r'

/-- The text after its leading whitespace. -/
def skipSpace : Bytes → Bytes
  | [] => []
  | b :: s => if isSpace b then skipSpace s else b :: s

/-- An ASCII decimal digit. -/
def isDigit (b : UInt8) : Bool := byte '0' ≤ b && b ≤ byte '9'

/-- The run of digits at the front read on from `acc`, and what follows it. -/
def spanDigits (acc : Nat) : Bytes → Nat × Bytes
  | [] => (acc, [])
  | b :: s => if isDigit b then spanDigits (acc * 10 + (b.toNat - 48)) s else (acc, b :: s)

/-- The text after the literal `lit`, if the text begins with it. -/
def afterLit (lit s : Bytes) : Option Bytes := if lit <+: s then some (s.drop lit.length) else none

/-- A JSON value decoded into a `uint32`: an integer of JSON's grammar (`0`, or digits with no
leading zero) that fits, or `null`, which leaves the zero value. Every other value is an error:
a syntax error, or a number or a type `encoding/json` cannot store in a `uint32`. -/
def uint32Value : Bytes → Option (UInt32 × Bytes)
  | [] => none
  | b :: s =>
    if b = byte '0' then some (0, s)
    else if isDigit b then
      let r := spanDigits (b.toNat - 48) s
      if r.1 < 2 ^ 32 then some (r.1.toUInt32, r.2) else none
    else (afterLit (bytes "ull") s).bind fun s' => if b = byte 'n' then some (0, s') else none

/-- The elements of a JSON array, from its first, each read by `item`, up to the closing bracket;
`fuel` bounds their number. -/
def elements {α : Type} (item : Bytes → Option (α × Bytes)) :
    Nat → Bytes → Option (List α × Bytes)
  | 0, _ => none
  | fuel + 1, s =>
    match item (skipSpace s) with
    | none => none
    | some (x, rest) =>
      match skipSpace rest with
      | [] => none
      | b :: rest' =>
        if b = byte ',' then (elements item fuel rest').map fun r => (x :: r.1, r.2)
        else if b = byte ']' then some ([x], rest') else none

/-- A JSON value decoded into a Go slice: an array of items, or `null` for a nil slice. -/
def sliceValue {α : Type} (item : Bytes → Option (α × Bytes)) (fuel : Nat) :
    Bytes → Option (List α × Bytes)
  | [] => none
  | b :: s =>
    if b = byte '[' then
      match skipSpace s with
      | [] => none
      | c :: s' => if c = byte ']' then some ([], s') else elements item fuel (c :: s')
    else (afterLit (bytes "ull") s).bind fun s' => if b = byte 'n' then some ([], s') else none

/-- `json.Unmarshal(data, &nodes)` into a `[]uint32`; `none` is its error. -/
def unmarshalIDs (data : Bytes) : Option (List UInt32) :=
  match sliceValue uint32Value data.length (skipSpace data) with
  | none => none
  | some (ids, rest) => if skipSpace rest = [] then some ids else none

/-- A nil or empty `NodeSet`. -/
def NodeSet.empty : NodeSet := ⟨[], List.nodup_nil⟩

/-- `NodeSet.Add`. -/
def NodeSet.add (s : NodeSet) (v : UInt32) : NodeSet := ⟨s.ids.insert v, s.nodup.insert⟩

/-- `NodeSet.UnmarshalJSON`, a nil set made empty first: every decoded ID added, or on the error
of `json.Unmarshal` (`none`) nothing. -/
def NodeSet.unmarshalJSON (s : NodeSet) (data : Bytes) : Option NodeSet :=
  (unmarshalIDs data).map (·.foldl NodeSet.add s)

/-- The bytes up to the first `]`, it included, and what follows. -/
def untilClose : Bytes → Option (Bytes × Bytes)
  | [] => none
  | b :: s => if b = byte ']' then some ([b], s) else (untilClose s).map fun r => (b :: r.1, r.2)

/-- A partition of a view: `encoding/json` finds its raw value, an array of numbers or `null`,
and hands it to `UnmarshalJSON` on a zero `NodeSet`. -/
def partitionValue (s : Bytes) : Option (NodeSet × Bytes) :=
  let raw : Option (Bytes × Bytes) :=
    match s with
    | [] => none
    | b :: s' =>
      if b = byte '[' then (untilClose s').map fun r => (b :: r.1, r.2)
      else (afterLit (bytes "ull") s').bind fun s'' =>
        if b = byte 'n' then some (bytes "null", s'') else none
  raw.bind fun r => (NodeSet.empty.unmarshalJSON r.1).map (·, r.2)

/-- `json.Unmarshal` into a zero `View`, on texts laid out as `json.Marshal` writes a `View`:
the two fields in the order they are declared, and no whitespace between the tokens of the
object. The model rejects the other layouts `encoding/json` accepts (whitespace, other key
orders or spellings, unknown keys). -/
def View.unmarshal (data : Bytes) : Option View := do
  let s ← afterLit (bytes "\x7b\"leader\":") data
  let (leader, s) ← uint32Value s
  let s ← afterLit (bytes ",\"partitions\":") s
  let (partitions, s) ← sliceValue partitionValue data.length s
  if s = bytes "\x7d" then some ⟨leader, partitions⟩ else none

/-! ## Bytes -/

@[simp] theorem isSpace_comma : isSpace (byte ',') = false := by decide

@[simp] theorem isSpace_close : isSpace (byte ']') = false := by decide

@[simp] theorem isSpace_open : isSpace (byte '[') = false := by decide

theorem close_ne_comma : byte ']' ≠ byte ',' := by decide

theorem open_ne_close : byte '[' ≠ byte ']' := by decide

theorem isDigit_digitByte : ∀ d, d < 10 → isDigit (digitByte d) = true := by decide

theorem digitByte_sub : ∀ d, d < 10 → (digitByte d).toNat - 48 = d := by decide

theorem isSpace_digitByte : ∀ d, d < 10 → isSpace (digitByte d) = false := by decide

theorem digitByte_ne_close : ∀ d, d < 10 → digitByte d ≠ byte ']' := by decide

theorem digitByte_eq_zero_iff : ∀ d, d < 10 → (digitByte d = byte '0' ↔ d = 0) := by decide

theorem skipSpace_cons {b : UInt8} (hb : isSpace b = false) (t : Bytes) :
    skipSpace (b :: t) = b :: t := by
  simp [skipSpace, hb]

/-! ## Numbers -/

/-- What follows a number: nothing, or a byte that is not a digit. -/
def StopsNumber (r : Bytes) : Prop := ∀ b t, r = b :: t → isDigit b = false

theorem spanDigits_append {r : Bytes} (hr : StopsNumber r) :
    ∀ (ds : List Nat) (acc : Nat), (∀ d ∈ ds, d < 10) →
      spanDigits acc (ds.map digitByte ++ r) = (ds.foldl (fun a d => a * 10 + d) acc, r)
  | [], acc, _ => by
    cases r with
    | nil => rfl
    | cons b t => simp [spanDigits, hr b t rfl]
  | d :: ds, acc, hds => by
    have hd := hds d (List.mem_cons_self _ _)
    simp only [List.map_cons, List.cons_append, spanDigits, isDigit_digitByte d hd, if_true,
      digitByte_sub d hd, List.foldl_cons]
    exact spanDigits_append hr ds _ fun d' h => hds d' (List.mem_cons_of_mem _ h)

theorem foldl_reverse_eq_ofDigits :
    ∀ L : List Nat, L.reverse.foldl (fun a d => a * 10 + d) 0 = Nat.ofDigits 10 L
  | [] => rfl
  | d :: L => by
    rw [List.reverse_cons, List.foldl_append, foldl_reverse_eq_ofDigits L, Nat.ofDigits_cons]
    simp only [List.foldl_cons, List.foldl_nil]
    omega

theorem mem_decimal {n : Nat} {b : UInt8} (hb : b ∈ decimal n) : ∃ d < 10, b = digitByte d := by
  unfold decimal at hb
  split at hb
  · exact ⟨0, by decide, List.mem_singleton.1 hb⟩
  · obtain ⟨d, hd, rfl⟩ := List.mem_map.1 hb
    exact ⟨d, Nat.digits_lt_base (by norm_num) (List.mem_reverse.1 hd), rfl⟩

theorem decimal_ne_nil (n : Nat) : decimal n ≠ [] := by
  unfold decimal
  split
  · exact List.cons_ne_nil _ _
  · simpa using Nat.digits_ne_nil_iff_ne_zero.2 ‹_›

/-- A `uint32` written in decimal reads back, whatever that does not continue the number
follows it. -/
theorem uint32Value_decimal (x : UInt32) {r : Bytes} (hr : StopsNumber r) :
    uint32Value (decimal x.toNat ++ r) = some (x, r) := by
  unfold decimal
  split
  · rename_i h0
    obtain rfl : x = 0 := UInt32.toNat.inj h0
    simp only [List.singleton_append, uint32Value, (digitByte_eq_zero_iff 0 (by decide)).2 rfl,
      if_true]
  · rename_i hn
    set L := Nat.digits 10 x.toNat
    have hL : L ≠ [] := Nat.digits_ne_nil_iff_ne_zero.2 hn
    have hlt : ∀ d ∈ L, d < 10 := fun d hd => Nat.digits_lt_base (by norm_num) hd
    have hg := hlt _ (List.getLast_mem hL)
    have hrev : L.reverse = L.getLast hL :: L.dropLast.reverse := by
      conv_lhs => rw [← List.dropLast_append_getLast hL]
      simp
    -- the digits read back to `x`
    have hval : L.dropLast.reverse.foldl (fun a d => a * 10 + d) (L.getLast hL) = x.toNat := by
      have := foldl_reverse_eq_ofDigits L
      rwa [hrev, Nat.ofDigits_digits, List.foldl_cons, Nat.zero_mul, Nat.zero_add] at this
    have hsize : x.toNat < 2 ^ 32 := x.toNat_lt_size
    have hx : UInt32.ofNat x.toNat = x := UInt32.toNat.inj (UInt32.toNat_ofNat_of_lt hsize)
    rw [hrev, List.map_cons, List.cons_append, uint32Value,
      if_neg fun h => Nat.getLast_digit_ne_zero 10 hn ((digitByte_eq_zero_iff _ hg).1 h),
      if_pos (isDigit_digitByte _ hg), digitByte_sub _ hg,
      spanDigits_append hr L.dropLast.reverse _ fun d hd =>
        hlt d (List.dropLast_subset _ (List.mem_reverse.1 hd))]
    simp only [hval, hsize, if_true, Nat.toUInt32, hx]

/-! ## Arrays -/

/-- What follows an element of an array: a comma or the closing bracket. -/
def AfterElement (r : Bytes) : Prop := ∃ t, r = byte ',' :: t ∨ r = byte ']' :: t

theorem stopsNumber_of_afterElement {r : Bytes} (hr : AfterElement r) : StopsNumber r := by
  rintro b t rfl
  obtain ⟨t', h | h⟩ := hr <;> cases h <;> decide

theorem length_le_flatMap_cons (b : UInt8) :
    ∀ xs : List Bytes, xs.length ≤ (xs.flatMap (b :: ·)).length
  | [] => le_rfl
  | x :: xs => by
    simp only [List.flatMap_cons, List.length_append, List.length_cons]
    have := length_le_flatMap_cons b xs
    omega

theorem length_le_encodeList (items : List Bytes) : items.length ≤ (encodeList items).length := by
  cases items with
  | nil => simp [encodeList]
  | cons x xs =>
    have := length_le_flatMap_cons (byte ',') xs
    simp only [encodeList, List.length_cons, List.length_append, List.length_singleton]
    omega

section Lists

variable {α β : Type} {item : Bytes → Option (α × Bytes)} {enc : β → Bytes}
  {dec : β → α}

/-- The elements of an array of encoded items read back, one after the other, when each item
reads back with what can follow it. -/
theorem elements_encode (henc : ∀ x, ∃ b t, enc x = b :: t ∧ isSpace b = false)
    (hitem : ∀ x r, AfterElement r → item (enc x ++ r) = some (dec x, r)) (rest : Bytes) :
    ∀ (xs : List β) (x : β) (fuel : Nat), xs.length < fuel →
      elements item fuel (enc x ++ ((xs.map enc).flatMap (byte ',' :: ·) ++ byte ']' :: rest)) =
        some ((x :: xs).map dec, rest)
  | xs, x, fuel + 1, hfuel => by
    obtain ⟨b, t, hbt, hb⟩ := henc x
    rw [elements, hbt, List.cons_append, skipSpace_cons hb, ← List.cons_append, ← hbt]
    cases xs with
    | nil =>
      simp only [List.map_nil, List.flatMap_nil, List.nil_append]
      rw [hitem x _ ⟨rest, .inr rfl⟩]
      simp only [skipSpace_cons isSpace_close, if_neg close_ne_comma, if_true, List.map_cons,
        List.map_nil]
    | cons y ys =>
      simp only [List.map_cons, List.flatMap_cons, List.cons_append, List.append_assoc]
      rw [hitem x _ ⟨_, .inl rfl⟩]
      simp only [skipSpace_cons isSpace_comma, if_true]
      rw [elements_encode henc hitem rest ys y fuel (by simpa using hfuel)]
      rfl

/-- A JSON array of encoded items reads back as a slice of their decodings. -/
theorem sliceValue_encodeList
    (henc : ∀ x, ∃ b t, enc x = b :: t ∧ isSpace b = false ∧ b ≠ byte ']')
    (hitem : ∀ x r, AfterElement r → item (enc x ++ r) = some (dec x, r)) (xs : List β)
    {fuel : Nat} (hfuel : xs.length ≤ fuel) (rest : Bytes) :
    sliceValue item fuel (encodeList (xs.map enc) ++ rest) = some (xs.map dec, rest) := by
  cases xs with
  | nil =>
    simp [encodeList, sliceValue, skipSpace_cons isSpace_close]
  | cons x xs =>
    obtain ⟨b, t, hbt, hb, hbc⟩ := henc x
    have henc' : ∀ x, ∃ b t, enc x = b :: t ∧ isSpace b = false := fun x => by
      obtain ⟨b, t, h, hs, -⟩ := henc x
      exact ⟨b, t, h, hs⟩
    have := elements_encode henc' hitem rest xs x fuel hfuel
    simp only [List.map_cons, encodeList, List.cons_append, List.append_assoc, sliceValue, if_true,
      List.singleton_append] at this ⊢
    rw [hbt, List.cons_append, skipSpace_cons hb]
    simp only [if_neg hbc]
    rwa [← List.cons_append, ← hbt]

end Lists

/-! ## Node sets -/

theorem lt_of_le_of_ne_uint32 {a b : UInt32} (h : a ≤ b) (hne : a ≠ b) : a < b := by
  rw [UInt32.le_def, BitVec.le_def] at h
  rw [UInt32.lt_def, BitVec.lt_def]
  have : a.toBitVec.toNat ≠ b.toBitVec.toNat := fun e => hne (UInt32.toNat.inj e)
  omega

/-- `MarshalJSON` writes the IDs strictly ascending. -/
theorem sorted_marshalJSON_ids (s : NodeSet) : (s.ids.insertionSort (· ≤ ·)).Sorted (· < ·) :=
  ((List.sorted_insertionSort _ _).and ((List.perm_insertionSort _ _).nodup_iff.2 s.nodup)).imp
    fun h => lt_of_le_of_ne_uint32 h.1 h.2

theorem mem_foldl_add (v : UInt32) :
    ∀ (l : List UInt32) (s : NodeSet),
      v ∈ (l.foldl NodeSet.add s).ids ↔ v ∈ l ∨ v ∈ s.ids
  | [], s => by simp
  | a :: l, s => by
    rw [List.foldl_cons, mem_foldl_add v l, NodeSet.add]
    simp only [List.mem_insert_iff, List.mem_cons]
    tauto

theorem unmarshalIDs_encodeList (ids : List UInt32) :
    unmarshalIDs (encodeList (ids.map fun id => decimal id.toNat)) = some ids := by
  have henc : ∀ id : UInt32,
      ∃ b t, decimal id.toNat = b :: t ∧ isSpace b = false ∧ b ≠ byte ']' := fun id => by
    obtain ⟨b, t, h⟩ := List.exists_cons_of_ne_nil (decimal_ne_nil id.toNat)
    obtain ⟨d, hd, rfl⟩ := mem_decimal (h ▸ List.mem_cons_self _ t)
    exact ⟨_, t, h, isSpace_digitByte d hd, digitByte_ne_close d hd⟩
  have hskip : skipSpace (encodeList (ids.map fun id => decimal id.toNat)) =
      encodeList (ids.map fun id => decimal id.toNat) := by
    cases ids <;> simp [encodeList, skipSpace_cons]
  have hfuel := length_le_encodeList (ids.map fun id => decimal id.toNat)
  rw [unmarshalIDs, hskip, ← List.append_nil (encodeList _),
    sliceValue_encodeList henc
      (fun x _ hr => uint32Value_decimal x (stopsNumber_of_afterElement hr)) ids
      (by simpa using hfuel) []]
  simp [skipSpace]

/-- The node set `UnmarshalJSON` builds, on an empty set, from what `MarshalJSON` writes. -/
def NodeSet.reread (s : NodeSet) : NodeSet :=
  (s.ids.insertionSort (· ≤ ·)).foldl NodeSet.add NodeSet.empty

theorem unmarshalJSON_marshalJSON (s : NodeSet) :
    NodeSet.empty.unmarshalJSON s.marshalJSON = some s.reread := by
  rw [NodeSet.unmarshalJSON, NodeSet.marshalJSON, unmarshalIDs_encodeList, Option.map_some']
  rfl

theorem reread_perm (s : NodeSet) : s.reread.ids.Perm s.ids :=
  (List.perm_ext_iff_of_nodup s.reread.nodup s.nodup).2 fun v => by
    rw [NodeSet.reread, mem_foldl_add, (List.perm_insertionSort _ _).mem_iff]
    simp [NodeSet.empty]

/-! ## Views -/

theorem untilClose_append (r : Bytes) :
    ∀ body : Bytes, byte ']' ∉ body →
      untilClose (body ++ byte ']' :: r) = some (body ++ [byte ']'], r)
  | [], _ => by simp [untilClose]
  | b :: body, h => by
    rw [List.mem_cons, not_or] at h
    rw [List.cons_append, untilClose, if_neg (Ne.symm h.1), untilClose_append r body h.2]
    rfl

/-- `MarshalJSON`'s array has no closing bracket before its last byte. -/
theorem marshalJSON_eq (s : NodeSet) :
    ∃ body, s.marshalJSON = byte '[' :: body ++ [byte ']'] ∧ byte ']' ∉ body := by
  have hdigits : ∀ id : UInt32, byte ']' ∉ decimal id.toNat := fun id hc => by
    obtain ⟨d, hd, h⟩ := mem_decimal hc
    exact digitByte_ne_close d hd h.symm
  rw [NodeSet.marshalJSON]
  cases s.ids.insertionSort (· ≤ ·) with
  | nil => exact ⟨[], rfl, List.not_mem_nil _⟩
  | cons x xs =>
    refine ⟨decimal x.toNat ++ (xs.map fun id => decimal id.toNat).flatMap (byte ',' :: ·),
      by simp [encodeList], ?_⟩
    simp only [List.mem_append, List.mem_flatMap, List.mem_map, List.mem_cons, not_or]
    refine ⟨hdigits x, ?_⟩
    rintro ⟨_, ⟨id, -, rfl⟩, h | h⟩
    · exact close_ne_comma h
    · exact hdigits id h

theorem partitionValue_marshalJSON (p : NodeSet) (r : Bytes) :
    partitionValue (p.marshalJSON ++ r) = some (p.reread, r) := by
  obtain ⟨body, hm, hclose⟩ := marshalJSON_eq p
  have hraw : (untilClose (body ++ byte ']' :: r)).map (fun r => (byte '[' :: r.1, r.2)) =
      some (p.marshalJSON, r) := by
    rw [untilClose_append r body hclose, hm]
    rfl
  simp only [partitionValue, hm, List.cons_append, List.append_assoc, List.singleton_append,
    List.nil_append, if_true]
  rw [hraw, Option.some_bind, unmarshalJSON_marshalJSON]
  rfl

theorem afterLit_append (lit s : Bytes) : afterLit lit (lit ++ s) = some s := by
  rw [afterLit, if_pos (List.prefix_append _ _), List.drop_left]

/-- A view written by `json.Marshal` reads back with its leader and, for each partition, the set
`UnmarshalJSON` builds from it. -/
theorem unmarshal_marshal (v : View) :
    View.unmarshal v.marshal = some ⟨v.leader, v.partitions.map NodeSet.reread⟩ := by
  have hcomma : bytes ",\"partitions\":" = byte ',' :: bytes "\"partitions\":" := by decide
  have hstop : StopsNumber (bytes ",\"partitions\":" ++
      (encodeList (v.partitions.map NodeSet.marshalJSON) ++ bytes "\x7d")) := by
    rintro b t h
    rw [hcomma, List.cons_append] at h
    cases h
    decide
  have henc :
      ∀ p : NodeSet, ∃ b t, p.marshalJSON = b :: t ∧ isSpace b = false ∧ b ≠ byte ']' :=
    fun p => by
      obtain ⟨body, hm, -⟩ := marshalJSON_eq p
      exact ⟨_, _, hm, isSpace_open, open_ne_close⟩
  simp only [View.unmarshal, View.marshal, List.append_assoc, afterLit_append, Option.bind_eq_bind,
    Option.some_bind, uint32Value_decimal _ hstop]
  rw [sliceValue_encodeList henc (fun p r _ => partitionValue_marshalJSON p r) _ ?_]
  · simp
  · have := length_le_encodeList (v.partitions.map NodeSet.marshalJSON)
    simp only [List.length_append, List.length_map] at this ⊢
    omega

/-- For every set of network IDs: `UnmarshalJSON` of `MarshalJSON`'s text into a nil or empty
`NodeSet` gives the set back; the text is the JSON array of the IDs in strictly ascending order,
so sets with the same IDs are written the same, whatever order `range` visits them in; and every
view written by `json.Marshal` reads back with its leader and partitions. -/
theorem nodeSet_json_roundtrip :
    (∀ s : NodeSet,
      ∃ s', NodeSet.empty.unmarshalJSON s.marshalJSON = some s' ∧ s'.ids.Perm s.ids) ∧
    (∀ s : NodeSet, ∃ ids : List UInt32,
      s.marshalJSON = encodeList (ids.map fun id => decimal id.toNat) ∧
        ids.Sorted (· < ·) ∧ ids.Perm s.ids) ∧
    (∀ s₁ s₂ : NodeSet, s₁.ids.Perm s₂.ids → s₁.marshalJSON = s₂.marshalJSON) ∧
    ∀ v : View, ∃ v', View.unmarshal v.marshal = some v' ∧ v'.leader = v.leader ∧
      List.Forall₂ (fun p' p : NodeSet => p'.ids.Perm p.ids) v'.partitions v.partitions := by
  refine ⟨fun s => ⟨_, unmarshalJSON_marshalJSON s, reread_perm s⟩,
    fun s => ⟨_, rfl, sorted_marshalJSON_ids s, List.perm_insertionSort _ _⟩,
    fun s₁ s₂ h => ?_, fun v => ⟨_, unmarshal_marshal v, rfl, ?_⟩⟩
  · have hperm : (s₁.ids.insertionSort (· ≤ ·)).Perm (s₂.ids.insertionSort (· ≤ ·)) :=
      (List.perm_insertionSort _ _).trans (h.trans (List.perm_insertionSort _ _).symm)
    rw [NodeSet.marshalJSON, NodeSet.marshalJSON,
      List.eq_of_perm_of_sorted hperm (sorted_marshalJSON_ids s₁) (sorted_marshalJSON_ids s₂)]
  · exact List.forall₂_map_left_iff.2 (List.forall₂_same.2 fun p _ => reread_perm p)

end HotStuff.Twins
