import Mathlib.Algebra.Order.BigOperators.Group.List
import MinimalRedis.RdbFormat
import MinimalRedis.TypeChange

/-!
# What the reader must be given

The opcode loop is liberal about what it reads, but it builds nothing for free.  Weigh a byte five, the
EOF byte four; `potential d` is then what the writer would spend on the strings, lists, sets and
hashes of `d`, **counting the payloads hidden behind another type tag**.

* `potential_run_items` — whatever items the loop reads, the potential of what they build is at most
  their weight;
* `weightOf_saved_le` — a database without sorted sets and timestamps weighs, as saved, at most the
  potential of any database that looks the same.

Sorted sets and timestamps are outside the account: their eight raw bytes are not compared back.
-/

namespace MinimalRedis

open Lib

variable {S : Type} [Score S]

/-! ### Weights of bytes -/

def weight (b : UInt8) : ℕ := if b = rdbOpcodeEof then 4 else 5

def weightOf (bs : Bytes) : ℕ := (bs.map weight).sum

@[simp] theorem weightOf_cons (b : UInt8) (bs : Bytes) :
    weightOf (b :: bs) = weight b + weightOf bs := rfl

@[simp] theorem weightOf_append (bs bs' : Bytes) :
    weightOf (bs ++ bs') = weightOf bs + weightOf bs' := by
  rw [weightOf, List.map_append, List.sum_append]
  rfl

theorem weightOf_flatMap {α : Type} (f : α → Bytes) (l : List α) :
    weightOf (l.flatMap f) = (l.map fun x => weightOf (f x)).sum := by
  induction l with
  | nil => rfl
  | cons x l ih => rw [List.flatMap_cons, weightOf_append, ih, List.map_cons, List.sum_cons]

theorem weight_of_ne {b : UInt8} (h : b ≠ rdbOpcodeEof) : weight b = 5 := if_neg h

theorem weight_bounds (b : UInt8) : 4 ≤ weight b ∧ weight b ≤ 5 := by
  unfold weight
  split <;> omega

theorem weightOf_bounds (bs : Bytes) :
    4 * bs.length ≤ weightOf bs ∧ weightOf bs ≤ 5 * bs.length := by
  induction bs with
  | nil => exact ⟨Nat.le_refl _, Nat.le_refl _⟩
  | cons b bs ih =>
    have hb := weight_bounds b
    rw [weightOf_cons, List.length_cons]
    omega

theorem weightOf_count_bounds (n : ℕ) :
    16 ≤ weightOf (leBytes 4 n) ∧ weightOf (leBytes 4 n) ≤ 20 := by
  have h := weightOf_bounds (leBytes 4 n)
  rw [length_leBytes] at h
  omega

/-- The weight of a string as written. -/
def stringWeight (s : Bytes) : ℕ := weightOf (writeLengthEncoded s)

theorem weight_ofNat_of_lt {n : ℕ} (h : n < 64) : weight (UInt8.ofNat n) = 5 := by
  have hall : ∀ n : Fin 64, weight (UInt8.ofNat n) = 5 := by decide +kernel
  exact hall ⟨n, h⟩

theorem weight_of_flag {b : UInt8} (h : b &&& 0xC0 = 0x80) : weight b = 5 := by
  apply weight_of_ne
  intro heof
  subst heof
  exact absurd h (by decide)

theorem five_le_stringWeight (s : Bytes) : 5 ≤ stringWeight s := by
  unfold stringWeight writeLengthEncoded
  simp only
  split
  · rename_i hlt
    rw [weightOf_cons, weight_ofNat_of_lt hlt]
    omega
  · rw [weightOf_cons, weight_of_flag (by decide)]
    omega

/-- The writer's encoding is the lightest the reader takes. -/
theorem stringWeight_content_le (e : Encoded) : stringWeight e.content ≤ weightOf e.bytes := by
  unfold stringWeight writeLengthEncoded
  cases e with
  | short s fits =>
    have hmod : s.length % 2 ^ 32 = s.length := Nat.mod_eq_of_lt (by omega)
    simp only [Encoded.content, Encoded.bytes, hmod, if_pos fits, List.take_length]
    exact Nat.le_refl _
  | long flag isFlag s fits =>
    have hmod : s.length % 2 ^ 32 = s.length := Nat.mod_eq_of_lt fits
    have hcount := weightOf_count_bounds s.length
    simp only [Encoded.content, Encoded.bytes, hmod, List.take_length]
    split
    · rename_i hlt
      rw [weightOf_cons, weightOf_cons, weight_ofNat_of_lt hlt, weight_of_flag isFlag, weightOf_append]
      omega
    · rw [weightOf_cons, weightOf_cons, weight_of_flag isFlag, weight_of_flag (by decide)]

theorem sum_stringWeight_content_le (es : List Encoded) :
    ((es.map Encoded.content).map stringWeight).sum ≤ weightOf (es.flatMap Encoded.bytes) := by
  rw [weightOf_flatMap, List.map_map]
  exact List.sum_le_sum fun e _ => stringWeight_content_le e

/-! ### The potential of a database -/

/-- What a counted record costs; an empty one costs nothing. -/
def countedWeight (key : Bytes) (n total : ℕ) : ℕ :=
  if n = 0 then 0 else 5 + stringWeight key + weightOf (leBytes 4 n) + total

def fieldWeight (field value : Bytes) : ℕ := stringWeight field + stringWeight value

/-- The lists, sets and hashes of a value, whatever its type tag. -/
def collectionWeight (key : Bytes) (v : RedisValue S) : ℕ :=
  countedWeight key v.listVal.length (v.listVal.map stringWeight).sum +
  countedWeight key v.setVal.size (v.setVal.total fun m _ => stringWeight m) +
  countedWeight key v.hashVal.size (v.hashVal.total fieldWeight)

/-- The string counts only under its own tag. -/
def valueWeight (key : Bytes) (v : RedisValue S) : ℕ :=
  (if v.type = .string then 5 + stringWeight key + stringWeight v.strVal else 0) +
    collectionWeight key v

def potential (d : Data S) : ℕ := d.total valueWeight

theorem collectionWeight_le (key : Bytes) (v : RedisValue S) :
    collectionWeight key v ≤ valueWeight key v := Nat.le_add_left _ _

theorem valueWeight_of_ne_string {key : Bytes} {v : RedisValue S} (h : v.type ≠ .string) :
    valueWeight key v = collectionWeight key v := by
  rw [valueWeight, if_neg h, Nat.zero_add]

/-- A write raises the potential by no more than it adds to the collections it found. -/
theorem potential_set_le {key : Bytes} {d : Data S} {w : RedisValue S} {c : ℕ}
    (h : valueWeight key w ≤ collectionWeight key ((d.find? key).getD default) + c) :
    potential (d.set key w) ≤ potential d + c := by
  have hset := UMap.total_set_add valueWeight d key w
  unfold potential
  cases hv : d.find? key with
  | none =>
    have hdefault : collectionWeight key (default : RedisValue S) = 0 := rfl
    rw [hv] at h hset
    rw [Option.getD_none, hdefault] at h
    rw [Option.elim_none] at hset
    omega
  | some v =>
    have hv' := collectionWeight_le key v
    rw [hv] at h hset
    rw [Option.getD_some] at h
    rw [Option.elim_some] at hset
    omega

/-- Growing a counted payload from `n` to `n'` by `m` elements costs no more than a record of `m`, when
each element that adds nothing has cost five. -/
theorem countedWeight_le {key : Bytes} {n m n' t u t' : ℕ} (ht : n = 0 → t = 0)
    (hsize : n' ≤ n + m) (htotal : t' + 5 * (n + m) ≤ t + u + 5 * n') :
    countedWeight key n' t' ≤
      countedWeight key n t + (5 + stringWeight key + weightOf (leBytes 4 m) + u) := by
  have hn' := weightOf_count_bounds n'
  have hm := weightOf_count_bounds m
  have hn := weightOf_count_bounds n
  unfold countedWeight
  split
  · exact Nat.zero_le _
  · split
    · rename_i hzero
      have ht := ht hzero
      -- from nothing: the count field is the same, or an element was spent in vain
      rcases Nat.lt_or_ge n' m with hlt | hge
      · omega
      · obtain rfl : n' = m := by omega
        omega
    · omega

theorem listWeight_append_le (key : Bytes) (l l' : List Bytes) :
    countedWeight key (l ++ l').length ((l ++ l').map stringWeight).sum ≤
      countedWeight key l.length (l.map stringWeight).sum +
        (5 + stringWeight key + weightOf (leBytes 4 l'.length) + (l'.map stringWeight).sum) := by
  apply countedWeight_le
  · intro hzero
    rw [List.eq_nil_of_length_eq_zero hzero]
    rfl
  · exact Nat.le_of_eq List.length_append
  · rw [List.map_append, List.sum_append, List.length_append]

theorem mapWeight_setMany_le {V : Type} (key : Bytes) {f : Bytes → V → ℕ} (hf : ∀ k v, 5 ≤ f k v)
    (m : UMap Bytes V) (l : List (Bytes × V)) :
    countedWeight key (m.setMany l).size ((m.setMany l).total f) ≤
      countedWeight key m.size (m.total f) +
        (5 + stringWeight key + weightOf (leBytes 4 l.length) +
          (l.map fun e => f e.1 e.2).sum) := by
  apply countedWeight_le
  · intro hzero
    rw [UMap.size_eq_zero_iff.mp hzero]
    rfl
  · exact UMap.size_setMany_le m l
  · exact UMap.total_setMany_le hf m l

/-! ### What one item adds -/

theorem run_rpush (key : Bytes) {values : List Bytes} (hne : values ≠ []) (d : Data S) :
    Call.run (values.map fun value => .rpush key [value]) d =
      d.set key { (d.find? key).getD default with
        type := .list
        listVal := ((d.find? key).getD default).listVal ++ values } := by
  induction values generalizing d with
  | nil => exact absurd rfl hne
  | cons value values ih =>
    rcases eq_or_ne values [] with rfl | hne'
    · rfl
    · rw [List.map_cons, Call.run_cons, ih hne']
      simp only [Call.apply, Database.rpush, Database.writeThrough, UMap.find?_set_self, UMap.set_set,
        Option.getD_some, List.append_assoc, List.singleton_append]

/-- The weight of a counted record with the given key and body. -/
theorem potential_run_list (key : Bytes) (values : List Bytes) (d : Data S) :
    potential (Call.run (values.map fun value => .rpush key [value]) d) ≤
      potential d + (5 + stringWeight key + weightOf (leBytes 4 values.length) +
        (values.map stringWeight).sum) := by
  rcases eq_or_ne values [] with rfl | hne
  · exact Nat.le_add_right _ _
  · rw [run_rpush key hne]
    apply potential_set_le
    have happend := listWeight_append_le key ((d.find? key).getD default).listVal values
    rw [valueWeight_of_ne_string (by simp)]
    simp only [collectionWeight]
    omega

theorem potential_sadd (key : Bytes) (members : List Bytes) (d : Data S) :
    potential (Database.sadd key members d).2 ≤
      potential d + (5 + stringWeight key + weightOf (leBytes 4 members.length) +
        (members.map stringWeight).sum) := by
  apply potential_set_le
  have hinsert := mapWeight_setMany_le key (fun m (_ : Unit) => five_le_stringWeight m)
    ((d.find? key).getD default).setVal (members.map fun m => (m, ()))
  rw [List.length_map, List.map_map] at hinsert
  rw [valueWeight_of_ne_string (by simp)]
  simp only [collectionWeight, USet.insertMany_eq_setMany]
  have hsum : (members.map ((fun e : Bytes × Unit => stringWeight e.1) ∘ fun m => (m, ()))).sum =
      (members.map stringWeight).sum := rfl
  omega

theorem potential_run_hset (key : Bytes) (pairs : List (Bytes × Bytes)) (d : Data S) :
    potential (pairs.foldl (fun d p => Database.hset key p.1 p.2 d) d) ≤
      potential d + (5 + stringWeight key + weightOf (leBytes 4 pairs.length) +
        (pairs.map fun p => fieldWeight p.1 p.2).sum) := by
  rcases eq_or_ne pairs [] with rfl | hne
  · exact Nat.le_add_right _ _
  · rw [foldl_hset key hne]
    apply potential_set_le
    have hfields := mapWeight_setMany_le key
      (fun f x => Nat.le_trans (five_le_stringWeight f) (Nat.le_add_right _ (stringWeight x)))
      ((d.find? key).getD default).hashVal pairs
    rw [valueWeight_of_ne_string (by simp)]
    simp only [collectionWeight]
    unfold fieldWeight
    omega

/-- `ZADD` touches none of the payloads accounted for. -/
theorem collectionWeight_foldl_zaddOne (key : Bytes) (ps : List (S × Bytes)) (v : RedisValue S) :
    collectionWeight key (ps.foldl Database.zaddOne v) = collectionWeight key v :=
  Database.foldl_zaddOne_keeps (collectionWeight key) (fun _ _ => rfl) ps v

theorem potential_zadd (key : Bytes) (members : List (S × Bytes)) (d : Data S) :
    potential (Database.zadd key members d).2 ≤ potential d := by
  apply potential_set_le (c := 0)
  rw [valueWeight_of_ne_string (by rw [type_foldl_zaddOne]; simp), collectionWeight_foldl_zaddOne]
  exact Nat.le_refl _

theorem potential_set (key value : Bytes) (d : Data S) :
    potential (Database.set key value d) ≤
      potential d + (5 + stringWeight key + stringWeight value) := by
  apply potential_set_le
  simp only [valueWeight, if_true, collectionWeight]
  omega

/-- A timestamp is not accounted for. -/
theorem potential_setExpiryTime (key : Bytes) (expiry : ℤ) (d : Data S) :
    potential (Database.setExpiryTime key expiry d) = potential d := by
  unfold Database.setExpiryTime
  cases hv : d.find? key with
  | none => rfl
  | some v =>
    have hset := UMap.total_set_add valueWeight d key { v with expiryTime := expiry }
    have hsame : valueWeight key { v with expiryTime := expiry } = valueWeight key v := rfl
    rw [hv, Option.elim_some, hsame] at hset
    show UMap.total valueWeight (d.set key { v with expiryTime := expiry }) = d.total valueWeight
    omega

theorem run_fieldCall (key : Bytes) (fields : List (Encoded × Encoded)) (d : Data S) :
    Call.run (fields.map (fieldCall key)) d =
      (fields.map fun f => (f.1.content, f.2.content)).foldl
        (fun d p => Database.hset key p.1 p.2 d) d := by
  rw [Call.run, List.foldl_map, List.foldl_map]
  rfl

theorem sum_fieldWeight_content_le (fields : List (Encoded × Encoded)) :
    ((fields.map fun f => (f.1.content, f.2.content)).map fun p => fieldWeight p.1 p.2).sum ≤
      weightOf (fields.flatMap fieldBytes) := by
  rw [weightOf_flatMap, List.map_map]
  refine List.sum_le_sum fun f _ => ?_
  show stringWeight f.1.content + stringWeight f.2.content ≤ weightOf (f.1.bytes ++ f.2.bytes)
  rw [weightOf_append]
  exact Nat.add_le_add (stringWeight_content_le f.1) (stringWeight_content_le f.2)

/-- The calls of a payload cost no more than its type byte, its key and its bytes. -/
theorem potential_payload (key : Encoded) (expiryMs : ℤ) (p : Payload) (d : Data S) :
    potential (Call.run (p.calls key.content expiryMs) d) ≤
      potential d + (weight p.type + weightOf key.bytes + weightOf p.bytes) := by
  have hkey := stringWeight_content_le key
  cases p with
  | string value =>
    have hvalue := stringWeight_content_le value
    have hset := potential_set key.content value.content d
    have hcalls : potential (Call.run ((Payload.string value).calls key.content expiryMs) d) =
        potential (Database.set key.content value.content d) := by
      simp only [Payload.calls]
      split
      · exact potential_setExpiryTime _ _ _
      · rfl
    rw [hcalls, Payload.type, Payload.bytes, weight_of_ne (by decide)]
    omega
  | list values fits =>
    have hvalues := sum_stringWeight_content_le values
    have hrun := potential_run_list key.content (values.map Encoded.content) d
    rw [List.map_map, List.length_map] at hrun
    rw [Payload.type, Payload.bytes, weight_of_ne (by decide), weightOf_append]
    refine Nat.le_trans hrun ?_
    omega
  | set members fits =>
    have hmembers := sum_stringWeight_content_le members
    have hadd := potential_sadd key.content (members.map Encoded.content) d
    rw [List.length_map] at hadd
    rw [Payload.type, Payload.bytes, weight_of_ne (by decide), weightOf_append]
    refine Nat.le_trans hadd ?_
    omega
  | zset members fits =>
    exact Nat.le_trans (potential_zadd key.content (members.map memberPair) d) (Nat.le_add_right _ _)
  | hash fields fits =>
    have hfields := sum_fieldWeight_content_le fields
    have hrun := potential_run_hset key.content (fields.map fun f => (f.1.content, f.2.content)) d
    rw [List.length_map, ← run_fieldCall] at hrun
    rw [Payload.type, Payload.bytes, weight_of_ne (by decide), weightOf_append]
    refine Nat.le_trans hrun ?_
    omega
  | selectdb => exact Nat.le_add_right _ _
  | unknown type h => exact Nat.le_add_right _ _

theorem potential_item (item : Item) (d : Data S) :
    potential (Call.run item.calls d) ≤ potential d + weightOf item.bytes := by
  have hpayload := potential_payload item.key item.expiryMs item.payload d
  rw [Item.bytes, weightOf_append, weightOf_cons, weightOf_append]
  refine Nat.le_trans hpayload ?_
  omega

/-- Whatever items the loop reads, what they build costs no more than they weigh. -/
theorem potential_run_items (items : List Item) (d : Data S) :
    potential (Call.run (items.flatMap Item.calls) d) ≤
      potential d + weightOf (items.flatMap Item.bytes) := by
  induction items generalizing d with
  | nil => exact Nat.le_refl _
  | cons item items ih =>
    have hstep := potential_item item d
    have hrest := ih (Call.run item.calls d)
    rw [List.flatMap_cons, List.flatMap_cons, Call.run_append, weightOf_append]
    omega

/-! ### What the writer spends -/

/-- Contents the format has room for: strings below `2 ^ 32` bytes, and collections with at least one
and fewer than `2 ^ 32` elements. -/
def Storable (key : Bytes) (v : RedisValue S) : Prop :=
  key.length < 2 ^ 32 ∧
  match v.type with
  | .string => v.strVal.length < 2 ^ 32
  | .list => 0 < v.listVal.length ∧ v.listVal.length < 2 ^ 32 ∧
      ∀ x ∈ v.listVal, x.length < 2 ^ 32
  | .set => 0 < v.setVal.size ∧ v.setVal.size < 2 ^ 32 ∧
      ∀ m ∈ v.setVal.keys, m.length < 2 ^ 32
  | .hash => 0 < v.hashVal.size ∧ v.hashVal.size < 2 ^ 32 ∧
      ∀ e ∈ v.hashVal.entries, e.1.length < 2 ^ 32 ∧ e.2.length < 2 ^ 32
  | .zset => 0 < v.zsetMemberToScore.size ∧ v.zsetMemberToScore.size < 2 ^ 32 ∧
      ∀ m ∈ v.zsetMemberToScore.keys, m.length < 2 ^ 32

instance (key : Bytes) (v : RedisValue S) : Decidable (Storable key v) := by
  unfold Storable
  cases v.type <;> infer_instance

theorem total_congr {K V : Type} [DecidableEq K] {f : K → V → ℕ} {m m' : UMap K V}
    (h : ∀ k, m.find? k = m'.find? k) : m.total f = m'.total f :=
  ((UMap.perm_of_find? h).map fun e : K × V => f e.1 e.2).sum_nat

theorem countedWeight_of_pos {key : Bytes} {n t : ℕ} (h : 0 < n) :
    countedWeight key n t = 5 + stringWeight key + weightOf (leBytes 4 n) + t :=
  if_neg (Nat.ne_of_gt h)

/-- A record that is not a sorted set weighs at most what any value that looks the same is worth. -/
theorem weightOf_saveRecord_le {key : Bytes} {v v' : RedisValue S} (hv : Storable key v)
    (hzset : v.type ≠ .zset) (htype : v.type = v'.type) (hsame : SamePayload v.type v v') :
    weightOf (saveRecord key v) ≤ valueWeight key v' := by
  unfold Storable at hv
  unfold saveRecord
  cases ht : v.type with
  | string =>
    rw [ht] at htype hsame
    have hval : v.strVal = v'.strVal := hsame
    simp only [weightOf_cons, weightOf_append, valueWeight, if_pos htype.symm, hval]
    rw [weight_of_ne (by decide), stringWeight, stringWeight]
    omega
  | list =>
    rw [ht] at hv hsame
    have hval : v.listVal = v'.listVal := hsame
    refine Nat.le_trans ?_ (collectionWeight_le key v')
    simp only [weightOf_cons, weightOf_append, weightOf_flatMap, collectionWeight]
    rw [weight_of_ne (by decide), ← hval, countedWeight_of_pos hv.2.1]
    unfold stringWeight
    omega
  | set =>
    rw [ht] at hv hsame
    refine Nat.le_trans ?_ (collectionWeight_le key v')
    simp only [weightOf_cons, weightOf_append, weightOf_flatMap, collectionWeight]
    have htotal : (v.setVal.total fun m _ => stringWeight m) =
        (v.setVal.keys.map fun m => weightOf (writeLengthEncoded m)).sum := by
      rw [UMap.keys, List.map_map]
      rfl
    rw [weight_of_ne (by decide), ← UMap.size_of_find? hsame, ← total_congr hsame,
      countedWeight_of_pos hv.2.1, htotal, stringWeight]
    omega
  | hash =>
    rw [ht] at hv hsame
    refine Nat.le_trans ?_ (collectionWeight_le key v')
    simp only [weightOf_cons, weightOf_append, weightOf_flatMap, collectionWeight]
    have htotal : v.hashVal.total fieldWeight = (v.hashVal.entries.map fun e =>
        weightOf (writeLengthEncoded e.1) + weightOf (writeLengthEncoded e.2)).sum := rfl
    rw [weight_of_ne (by decide), ← UMap.size_of_find? hsame, ← total_congr hsame,
      countedWeight_of_pos hv.2.1, htotal, stringWeight]
    omega
  | zset => exact absurd ht hzset

/-- A database without sorted sets and timestamps weighs at most what any database that looks the same
is worth. -/
theorem weightOf_saved_le {d d' : Data S} (hd : ∀ e ∈ d.entries, Storable e.1 e.2)
    (hplain : ∀ e ∈ d.entries, ¬ (e.2.expiryTime > 0 ∨ e.2.type = .zset))
    (hsame : ∀ key, SameView key d d') :
    weightOf (d.entries.flatMap saveEntry) ≤ potential d' := by
  rw [weightOf_flatMap]
  show d.total (fun key v => weightOf (saveEntry (key, v))) ≤ d'.total valueWeight
  refine UMap.total_le_total fun e he => ?_
  have hview := hsame e.1
  unfold SameView at hview
  rw [UMap.mem_entries_iff.mp he] at hview
  cases hv' : d'.find? e.1 with
  | none =>
    rw [hv'] at hview
    exact hview.elim
  | some v' =>
    rw [hv'] at hview
    obtain ⟨hexpiry, hzset⟩ := not_or.mp (hplain e he)
    refine ⟨v', rfl, ?_⟩
    show weightOf (saveExpiry e.2 ++ saveRecord e.1 e.2) ≤ _
    rw [saveExpiry, if_neg hexpiry, List.nil_append]
    exact weightOf_saveRecord_le (hd e he) hzset hview.1 hview.2

end MinimalRedis
