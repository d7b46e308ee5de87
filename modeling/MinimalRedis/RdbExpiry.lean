import MinimalRedis.RdbWrites

/-!
# Timestamps through the RDB file

The writer puts a timestamp in front of a record of any type, if it is positive.  The reader carries it
into the switch, where **only the string branch looks at it**.

* `loadRound_saveEntry` — one round of the reader's loop on what one round of the writer's wrote;
* `expiry_preserved_iff` — which entries have their timestamp back after it.
-/

namespace MinimalRedis

open Lib

variable {S : Type} [Score S]

/-! ### Strings as written -/

/-- The part of a string that the writer writes: its length is a `uint32_t`. -/
def stored (s : Bytes) : Bytes := s.take (s.length % 2 ^ 32)

theorem length_stored (s : Bytes) : (stored s).length = s.length % 2 ^ 32 :=
  List.length_take_of_le (Nat.mod_le _ _)

theorem stored_eq_self_iff {s : Bytes} : stored s = s ↔ s.length < 2 ^ 32 := by
  constructor
  · intro h
    have hlen := length_stored s
    rw [h] at hlen
    rw [hlen]
    exact Nat.mod_lt _ (by norm_num)
  · intro h
    rw [stored, Nat.mod_eq_of_lt h, List.take_length]

/-- What the reader takes a written string for. -/
def Encoded.written (s : Bytes) : Encoded :=
  if h : (stored s).length < 64 then .short (stored s) h
  else .long 0x80 (by decide) (stored s) (by
    rw [length_stored]
    exact Nat.mod_lt _ (by norm_num))

theorem Encoded.content_written (s : Bytes) : (written s).content = stored s := by
  unfold written
  split <;> rfl

theorem Encoded.bytes_written (s : Bytes) : (written s).bytes = writeLengthEncoded s := by
  have hlen := length_stored s
  unfold written writeLengthEncoded
  split
  · rename_i hshort
    rw [hlen] at hshort
    simp only [bytes, hlen, if_pos hshort]
    rfl
  · rename_i hlong
    rw [hlen] at hlong
    simp only [bytes, hlen, if_neg hlong]
    rfl

theorem readLengthEncoded_written (s rest : Bytes) :
    readLengthEncoded (writeLengthEncoded s ++ rest) = some (stored s, rest) := by
  rw [readLengthEncoded_eq_some_iff]
  exact ⟨.written s, Encoded.content_written s, by rw [Encoded.bytes_written]⟩

/-! ### Rows of strings, members and fields -/

theorem selfDelimiting_encoded : SelfDelimiting Encoded.bytes := by
  intro e e' r r' h
  have hread := readLengthEncoded_eq_some_iff.mpr ⟨e, rfl, h.symm⟩
  rw [readLengthEncoded_eq_some_iff.mpr ⟨e', rfl, rfl⟩] at hread
  exact (Prod.mk.inj (Option.some.inj hread)).2.symm

theorem Encoded.bytes_ne_nil (e : Encoded) : e.bytes ≠ [] := by
  cases e <;> exact List.cons_ne_nil _ _

theorem selfDelimiting_member : SelfDelimiting memberBytes := by
  intro m m' r r' h
  simp only [memberBytes, List.append_assoc] at h
  have hword := selfDelimiting_encoded _ _ _ _ h
  exact (List.append_inj hword (m.2.property.trans m'.2.property.symm)).2

theorem selfDelimiting_field : SelfDelimiting fieldBytes := by
  intro f f' r r' h
  simp only [fieldBytes, List.append_assoc] at h
  exact selfDelimiting_encoded _ _ _ _ (selfDelimiting_encoded _ _ _ _ h)

/-- A row under a count of its own reads back as a row of as many blocks. -/
theorem counted_row {α : Type} {f : α → Bytes} (hf : SelfDelimiting f) (hne : ∀ x, f x ≠ []) {n : ℕ}
    {l es : List α} (hfits : es.length < 2 ^ 32)
    (h : leBytes 4 n ++ l.flatMap f = leBytes 4 es.length ++ es.flatMap f) :
    n % 2 ^ 32 = l.length ∧ es.length = l.length := by
  obtain ⟨hcount, hrow⟩ := List.append_inj h (by rw [length_leBytes, length_leBytes])
  have hlen : es.length = l.length := (hf.length_eq hne hrow).symm
  refine ⟨?_, hlen⟩
  have hlow : ofLE (leBytes 4 n) = n % 2 ^ 32 := by
    rw [← leBytes_mod, ofLE_leBytes (Nat.mod_lt _ (by norm_num))]
    norm_num
  rw [← hlow, hcount, ofLE_leBytes (by omega), hlen]

theorem leBytes_of_mod {n m : ℕ} (h : n % 2 ^ 32 = m) : leBytes 4 n = leBytes 4 m := by
  rw [← h]
  exact (leBytes_mod 4 n).symm

/-! ### One round -/

/-- One round of the reader's loop, from the opcode on. -/
def loadRound : Bytes → List (Call S) × Option Bytes
  | [] => ([], none)
  | opcode :: bs => loadEntry opcode bs

def typeByte : RedisType → UInt8
  | .string => rdbTypeString
  | .list => rdbTypeList
  | .set => rdbTypeSet
  | .zset => rdbTypeZset
  | .hash => rdbTypeHash

/-- What the writer puts behind the key. -/
def payloadBytes (v : RedisValue S) : Bytes :=
  match v.type with
  | .string => writeLengthEncoded v.strVal
  | .list => leBytes 4 v.listVal.length ++ v.listVal.flatMap writeLengthEncoded
  | .set => leBytes 4 v.setVal.size ++ v.setVal.keys.flatMap writeLengthEncoded
  | .zset => leBytes 4 v.zsetMemberToScore.size ++
      v.zsetScoreToMember.entries.flatMap fun p => writeLengthEncoded p.2 ++ Score.toBytes p.1
  | .hash => leBytes 4 v.hashVal.size ++
      v.hashVal.entries.flatMap fun kv => writeLengthEncoded kv.1 ++ writeLengthEncoded kv.2

theorem saveRecord_eq (key : Bytes) (v : RedisValue S) :
    saveRecord key v = typeByte v.type :: (writeLengthEncoded key ++ payloadBytes v) := by
  unfold saveRecord payloadBytes
  cases v.type <;> rfl

/-- The timestamp the reader carries into its switch. -/
def savedExpiry (v : RedisValue S) : ℤ := if v.expiryTime > 0 then v.expiryTime else -1

theorem typeByte_ne_stamp (type : RedisType) : typeByte type ≠ rdbOpcodeExpiretimeMs := by
  cases type <;> decide

/-- A positive `int64_t` survives the eight bytes. -/
theorem wrap64_stamp {t : ℤ} (hpos : 0 < t) (hlt : t < 2 ^ 63) :
    wrap64 (ofLE (leBytes 8 (t % 2 ^ 64).toNat)) = t := by
  have hmod : (t % 2 ^ 64) = t := Int.emod_eq_of_lt (by omega) (by omega)
  rw [hmod, ofLE_leBytes (by omega), Int.toNat_of_nonneg (by omega), wrap64]
  exact Int.bmod_eq_of_le (by omega) (by omega)

/-- The same, as the reader puts it together from the eight bytes. -/
def carriedExpiry (v : RedisValue S) : ℤ :=
  if v.expiryTime > 0 then wrap64 (ofLE (leBytes 8 (v.expiryTime % 2 ^ 64).toNat)) else -1

theorem carriedExpiry_eq {v : RedisValue S} (hint : v.expiryTime < 2 ^ 63) :
    carriedExpiry v = savedExpiry v := by
  rw [carriedExpiry, savedExpiry]
  split
  · rename_i hpos
    exact wrap64_stamp hpos hint
  · rfl

theorem loadRound_saveEntry (key : Bytes) (v : RedisValue S) (rest : Bytes) :
    loadRound (S := S) (saveEntry (key, v) ++ rest) =
      loadRecord (typeByte v.type) (carriedExpiry v) (stored key) (payloadBytes v ++ rest) := by
  have hrecord : saveRecord key v ++ rest =
      typeByte v.type :: (writeLengthEncoded key ++ (payloadBytes v ++ rest)) := by
    rw [saveRecord_eq, List.cons_append, List.append_assoc]
  have htyped : ∀ expiryMs, loadTyped (S := S) (typeByte v.type) expiryMs
      (writeLengthEncoded key ++ (payloadBytes v ++ rest)) =
      loadRecord (typeByte v.type) expiryMs (stored key) (payloadBytes v ++ rest) := by
    intro expiryMs
    rw [loadTyped, readLengthEncoded_written]
  show loadRound (S := S) ((saveExpiry v ++ saveRecord key v) ++ rest) = _
  rw [List.append_assoc, hrecord, saveExpiry, carriedExpiry]
  split
  · have hword : readN 8 (leBytes 8 (v.expiryTime % 2 ^ 64).toNat ++
        typeByte v.type :: (writeLengthEncoded key ++ (payloadBytes v ++ rest))) =
        some (leBytes 8 (v.expiryTime % 2 ^ 64).toNat,
          typeByte v.type :: (writeLengthEncoded key ++ (payloadBytes v ++ rest))) :=
      readN_eq_some_iff.mpr ⟨length_leBytes 8 _, rfl⟩
    rw [List.cons_append, loadRound, loadEntry, if_pos rfl, hword]
    simp only
    rw [htyped]
  · show loadEntry (S := S) (typeByte v.type) _ = _
    rw [loadEntry, if_neg (typeByte_ne_stamp v.type), htyped]

/-! ### The timestamp afterwards -/

/-- One round of the reader on what the writer wrote for an entry takes exactly these bytes, and the
key has the timestamp of the entry afterwards. -/
def ExpiryPreserved (key : Bytes) (v : RedisValue S) (d : Data S) (rest : Bytes) : Prop :=
  ∃ calls, loadRound (saveEntry (key, v) ++ rest) = (calls, some rest) ∧
    ((Call.run calls d).find? key).map RedisValue.expiryTime = some v.expiryTime

/-- The payload is written, read back and leaves an entry: fewer than `2 ^ 32` elements, and at least
one of a list or a hash. -/
def Rebuilt (v : RedisValue S) : Prop :=
  match v.type with
  | .string => True
  | .list => v.listVal ≠ [] ∧ v.listVal.length < 2 ^ 32
  | .set => v.setVal.size < 2 ^ 32
  | .zset => v.zsetMemberToScore.size % 2 ^ 32 = v.zsetScoreToMember.size
  | .hash => v.hashVal ≠ ∅ ∧ v.hashVal.size < 2 ^ 32

theorem expiryTime_run_payload {key key' : Bytes} {d : Data S} (hd : d.find? key = none) (t e : ℤ)
    (p : Payload) :
    ((Call.run (p.calls key' e) d).find? key).map RedisValue.expiryTime = some t ↔
      key' = key ∧ p.writes (S := S) e ≠ [] ∧
        ((p.writes (S := S) e).filterMap Write.stamp?).getLastD 0 = t := by
  rw [run_payload_calls, find?_applyWrites, hd, Option.getD_none, writesAt_map]
  by_cases hkey : key' = key
  · rw [if_pos hkey]
    by_cases hnil : p.writes (S := S) e = []
    · simp [hnil]
    · rw [if_neg hnil, Option.map_some, expiryTime_foldl_apply, Option.some.injEq]
      exact ⟨fun h => ⟨hkey, hnil, h⟩, fun h => h.2.2⟩
  · simp [hkey]

/-- Only the string branch restores the timestamp. -/
theorem stamps_writes (e : ℤ) (p : Payload) :
    ((p.writes (S := S) e).filterMap Write.stamp?).getLastD 0 =
      if p.type = rdbTypeString ∧ e > 0 then e else 0 := by
  have hother : p.type ≠ rdbTypeString → (p.writes (S := S) e).filterMap Write.stamp? = [] →
      ((p.writes (S := S) e).filterMap Write.stamp?).getLastD 0 =
        if p.type = rdbTypeString ∧ e > 0 then e else 0 := by
    intro htype hnil
    rw [hnil, if_neg (fun h => htype h.1)]
    rfl
  have hmap : ∀ {α : Type} (f : α → Write S) (l : List α), (∀ x, (f x).stamp? = none) →
      (l.map f).filterMap Write.stamp? = [] := by
    intro α f l hf
    rw [List.filterMap_map, List.filterMap_eq_nil_iff]
    exact fun x _ => hf x
  cases p with
  | string value =>
    by_cases he : e > 0
    · rw [if_pos ⟨rfl, he⟩, Payload.writes, if_pos he]
      rfl
    · rw [if_neg (fun h => he h.2), Payload.writes, if_neg he]
      rfl
  | list values fits =>
    apply hother (show rdbTypeList ≠ rdbTypeString by decide)
    apply hmap
    exact fun _ => rfl
  | set members fits => exact hother (show rdbTypeSet ≠ rdbTypeString by decide) rfl
  | zset members fits => exact hother (show rdbTypeZset ≠ rdbTypeString by decide) rfl
  | hash fields fits =>
    apply hother (show rdbTypeHash ≠ rdbTypeString by decide)
    apply hmap
    exact fun _ => rfl
  | selectdb => exact hother (by decide) rfl
  | unknown type h =>
    refine hother ?_ rfl
    intro htype
    replace htype : type = rdbTypeString := htype
    subst htype
    exact h (by decide)

/-- The payload behind a type byte of the writer. -/
def Payload.Holds (p : Payload) : RedisType → Prop
  | .string => ∃ value, p = .string value
  | .list => ∃ values fits, p = .list values fits
  | .set => ∃ members fits, p = .set members fits
  | .zset => ∃ members fits, p = .zset members fits
  | .hash => ∃ fields fits, p = .hash fields fits

theorem Payload.holds_of_typeByte {p : Payload} {type : RedisType} (h : p.type = typeByte type) :
    p.Holds type := by
  cases p with
  | unknown t ht =>
    replace h : t = typeByte type := h
    subst h
    cases type <;> exact absurd (by decide) ht
  | string value => cases type <;> first | exact ⟨value, rfl⟩ | cases h
  | list values fits => cases type <;> first | exact ⟨values, fits, rfl⟩ | cases h
  | set members fits => cases type <;> first | exact ⟨members, fits, rfl⟩ | cases h
  | zset members fits => cases type <;> first | exact ⟨members, fits, rfl⟩ | cases h
  | hash fields fits => cases type <;> first | exact ⟨fields, fits, rfl⟩ | cases h
  | selectdb => cases type <;> cases h

theorem flatMap_written (l : List Bytes) :
    l.flatMap writeLengthEncoded = (l.map Encoded.written).flatMap Encoded.bytes := by
  rw [List.flatMap_map]
  exact List.flatMap_congr fun s _ => (Encoded.bytes_written s).symm

/-- The members of a sorted set as written. -/
def writtenMember (p : S × Bytes) : Encoded × Word :=
  (.written p.2, ⟨Score.toBytes p.1, Score.length_toBytes p.1⟩)

theorem flatMap_writtenMember (l : List (S × Bytes)) :
    l.flatMap (fun p => writeLengthEncoded p.2 ++ Score.toBytes p.1) =
      (l.map writtenMember).flatMap memberBytes := by
  rw [List.flatMap_map]
  refine List.flatMap_congr fun p _ => ?_
  show _ = (Encoded.written p.2).bytes ++ Score.toBytes p.1
  rw [Encoded.bytes_written]

def writtenField (kv : Bytes × Bytes) : Encoded × Encoded := (.written kv.1, .written kv.2)

theorem flatMap_writtenField (l : List (Bytes × Bytes)) :
    l.flatMap (fun kv => writeLengthEncoded kv.1 ++ writeLengthEncoded kv.2) =
      (l.map writtenField).flatMap fieldBytes := by
  rw [List.flatMap_map]
  refine List.flatMap_congr fun kv _ => ?_
  show _ = (Encoded.written kv.1).bytes ++ (Encoded.written kv.2).bytes
  rw [Encoded.bytes_written, Encoded.bytes_written]

theorem memberBytes_ne_nil (m : Encoded × Word) : memberBytes m ≠ [] :=
  List.append_ne_nil_of_left_ne_nil m.1.bytes_ne_nil _

theorem fieldBytes_ne_nil (f : Encoded × Encoded) : fieldBytes f ≠ [] :=
  List.append_ne_nil_of_left_ne_nil f.1.bytes_ne_nil _

/-- A payload of the value's type and bytes that writes something: the value comes back. -/
theorem rebuilt_of_payload {e : ℤ} {v : RedisValue S} {p : Payload} (hp : p.type = typeByte v.type)
    (hbytes : payloadBytes v = p.bytes) (hwrites : p.writes (S := S) e ≠ []) : Rebuilt v := by
  unfold payloadBytes at hbytes
  unfold Rebuilt
  have hcases := Payload.holds_of_typeByte hp
  cases htype : v.type with
  | string => trivial
  | list =>
    rw [htype] at hcases hbytes
    obtain ⟨values, fits, rfl⟩ := hcases
    simp only [flatMap_written] at hbytes
    obtain ⟨hcount, hlen⟩ := counted_row selfDelimiting_encoded Encoded.bytes_ne_nil fits hbytes
    rw [List.length_map] at hcount hlen
    refine ⟨?_, ?_⟩
    · intro hnil
      rw [hnil] at hlen
      obtain rfl := List.eq_nil_of_length_eq_zero hlen
      exact hwrites rfl
    · rw [← hlen]
      exact fits
  | set =>
    rw [htype] at hcases hbytes
    obtain ⟨members, fits, rfl⟩ := hcases
    simp only [flatMap_written] at hbytes
    obtain ⟨hcount, hlen⟩ := counted_row selfDelimiting_encoded Encoded.bytes_ne_nil fits hbytes
    rw [List.length_map, UMap.keys, List.length_map] at hlen
    show v.setVal.entries.length < 2 ^ 32
    rw [← hlen]
    exact fits
  | zset =>
    rw [htype] at hcases hbytes
    obtain ⟨members, fits, rfl⟩ := hcases
    simp only [flatMap_writtenMember] at hbytes
    obtain ⟨hcount, hlen⟩ := counted_row selfDelimiting_member memberBytes_ne_nil fits hbytes
    rw [List.length_map] at hcount
    exact hcount
  | hash =>
    rw [htype] at hcases hbytes
    obtain ⟨fields, fits, rfl⟩ := hcases
    simp only [flatMap_writtenField] at hbytes
    obtain ⟨hcount, hlen⟩ := counted_row selfDelimiting_field fieldBytes_ne_nil fits hbytes
    rw [List.length_map] at hlen
    refine ⟨?_, ?_⟩
    · intro hempty
      rw [hempty] at hlen
      obtain rfl := List.eq_nil_of_length_eq_zero hlen
      exact hwrites rfl
    · show v.hashVal.entries.length < 2 ^ 32
      rw [← hlen]
      exact fits

/-- What the reader writes under the key for the payload of `v`. -/
def restoredWrites (e : ℤ) (v : RedisValue S) : List (Write S) :=
  match v.type with
  | .string => .string (stored v.strVal) :: if e > 0 then [.stamp e] else []
  | .list => v.listVal.map fun x => .push (stored x)
  | .set => [.members (v.setVal.keys.map stored)]
  | .zset => [.scored (v.zsetScoreToMember.entries.map fun p => (p.1, stored p.2))]
  | .hash => v.hashVal.entries.map fun kv => .field (stored kv.1) (stored kv.2)

theorem restoredWrites_ne_nil (e : ℤ) {v : RedisValue S} (h : Rebuilt v) :
    restoredWrites e v ≠ [] := by
  rw [Rebuilt] at h
  rw [restoredWrites]
  cases htype : v.type with
  | list =>
    rw [htype] at h
    intro hnil
    exact h.1 (List.map_eq_nil_iff.mp hnil)
  | hash =>
    rw [htype] at h
    intro hnil
    refine h.1 (UMap.size_eq_zero_iff.mp ?_)
    rw [UMap.size, List.map_eq_nil_iff.mp hnil]
    rfl
  | string => exact List.cons_ne_nil _ _
  | set => exact List.cons_ne_nil _ _
  | zset => exact List.cons_ne_nil _ _

theorem memberPair_writtenMember (p : S × Bytes) :
    memberPair (writtenMember p) = (p.1, stored p.2) := by
  rw [memberPair, writtenMember, Score.ofBytes_toBytes, Encoded.content_written]

theorem exists_payload_of_rebuilt (e : ℤ) {v : RedisValue S} (h : Rebuilt v) :
    ∃ p : Payload, p.type = typeByte v.type ∧ payloadBytes v = p.bytes ∧
      p.writes (S := S) e = restoredWrites e v := by
  unfold Rebuilt at h
  unfold payloadBytes restoredWrites
  cases htype : v.type with
  | string =>
    refine ⟨.string (.written v.strVal), rfl, (Encoded.bytes_written v.strVal).symm, ?_⟩
    rw [Payload.writes, Encoded.content_written]
  | list =>
    rw [htype] at h
    refine ⟨.list (v.listVal.map .written) (by rw [List.length_map]; exact h.2), rfl, ?_, ?_⟩
    · simp only [Payload.bytes, List.length_map, flatMap_written]
    · simp only [Payload.writes, List.map_map, Function.comp_def, Encoded.content_written]
  | set =>
    rw [htype] at h
    have hlen : (v.setVal.keys.map Encoded.written).length = v.setVal.size := by
      rw [List.length_map, UMap.keys, List.length_map]
      rfl
    refine ⟨.set (v.setVal.keys.map .written) (by rwa [hlen]), rfl, ?_, ?_⟩
    · simp only [Payload.bytes, hlen, flatMap_written]
    · simp only [Payload.writes, List.map_map, Function.comp_def, Encoded.content_written]
  | zset =>
    rw [htype] at h
    have hlen : (v.zsetScoreToMember.entries.map writtenMember).length =
        v.zsetMemberToScore.size % 2 ^ 32 := by
      rw [List.length_map, h]
      rfl
    refine ⟨.zset (v.zsetScoreToMember.entries.map writtenMember) ?_, rfl, ?_, ?_⟩
    · rw [hlen]
      exact Nat.mod_lt _ (by norm_num)
    · simp only [Payload.bytes, hlen, flatMap_writtenMember]
      rw [leBytes_of_mod rfl]
    · simp only [Payload.writes, List.map_map, Function.comp_def, memberPair_writtenMember]
  | hash =>
    rw [htype] at h
    have hlen : (v.hashVal.entries.map writtenField).length = v.hashVal.size := List.length_map ..
    refine ⟨.hash (v.hashVal.entries.map writtenField) (by rw [hlen]; exact h.2), rfl, ?_, ?_⟩
    · simp only [Payload.bytes, hlen, flatMap_writtenField]
    · simp only [Payload.writes, List.map_map, Function.comp_def, writtenField,
        Encoded.content_written]

/-- The payloads that spell what the writer wrote for `v`, by their type. -/
theorem payload_written_iff (e : ℤ) (v : RedisValue S) :
    (∃ p : Payload, p.type = typeByte v.type ∧ payloadBytes v = p.bytes ∧ p.writes (S := S) e ≠ []) ↔
      Rebuilt v := by
  constructor
  · rintro ⟨p, hp, hbytes, hwrites⟩
    exact rebuilt_of_payload hp hbytes hwrites
  · intro h
    obtain ⟨p, hp, hbytes, hwrites⟩ := exists_payload_of_rebuilt e h
    refine ⟨p, hp, hbytes, ?_⟩
    rw [hwrites]
    exact restoredWrites_ne_nil e h

/-- **Which entries keep their timestamp.**  The reader restores it for strings only, and only a
positive one; every other entry comes back without, so it must have had none. -/
theorem expiry_preserved_iff {key : Bytes} {v : RedisValue S}
    (hint : -2 ^ 63 ≤ v.expiryTime ∧ v.expiryTime < 2 ^ 63) {d : Data S} (hd : d.find? key = none)
    (rest : Bytes) :
    ExpiryPreserved key v d rest ↔
      key.length < 2 ^ 32 ∧ Rebuilt v ∧
        (v.expiryTime = 0 ∨ v.type = .string ∧ v.expiryTime > 0) := by
  have htype : ∀ p : Payload, p.type = typeByte v.type →
      (p.type = rdbTypeString ↔ v.type = .string) := by
    intro p hp
    rw [hp]
    cases v.type <;> decide
  have hexpiry : ∀ p : Payload, p.type = typeByte v.type →
      (((p.writes (S := S) (savedExpiry v)).filterMap Write.stamp?).getLastD 0 = v.expiryTime ↔
        (v.expiryTime = 0 ∨ v.type = .string ∧ v.expiryTime > 0)) := by
    intro p hp
    simp only [stamps_writes, htype p hp, savedExpiry]
    by_cases hstring : v.type = .string
    · by_cases hpos : v.expiryTime > 0
      · simp [hstring, hpos]
      · simp [hpos, hstring]
        omega
    · simp [hstring, eq_comm]
  unfold ExpiryPreserved
  rw [loadRound_saveEntry, carriedExpiry_eq hint.2]
  constructor
  · intro h
    obtain ⟨calls, hload, hfind⟩ := h
    obtain ⟨p, hp, hbytes, rfl⟩ := loadRecord_eq_some_iff.mp hload
    obtain ⟨hkey, hwrites, hstamp⟩ := (expiryTime_run_payload hd _ _ p).mp hfind
    refine ⟨stored_eq_self_iff.mp hkey, ?_, (hexpiry p hp).mp hstamp⟩
    exact (payload_written_iff (savedExpiry v) v).mp
      ⟨p, hp, List.append_cancel_right hbytes, hwrites⟩
  · intro h
    obtain ⟨hkey, hrebuilt, hstamp⟩ := h
    obtain ⟨p, hp, hbytes, hwrites⟩ := (payload_written_iff (savedExpiry v) v).mpr hrebuilt
    refine ⟨p.calls (stored key) (savedExpiry v), ?_, ?_⟩
    · exact loadRecord_eq_some_iff.mpr ⟨p, hp, by rw [hbytes], rfl⟩
    · rw [expiryTime_run_payload hd]
      exact ⟨stored_eq_self_iff.mpr hkey, hwrites, (hexpiry p hp).mpr hstamp⟩

/-- A string that expires at time 1000. -/
theorem string_keeps_expiry :
    let v : RedisValue NatScore := { strVal := str "v", expiryTime := 1000 }
    ((-2 ^ 63 ≤ v.expiryTime ∧ v.expiryTime < 2 ^ 63) ∧
      (∅ : Data NatScore).find? (str "k") = none) ∧
      ExpiryPreserved (str "k") v ∅ [rdbOpcodeEof] := by
  intro v
  refine ⟨⟨by decide, rfl⟩, ?_⟩
  exact (expiry_preserved_iff (by decide) rfl _).mpr ⟨by decide, trivial, .inr ⟨rfl, by decide⟩⟩

/-- A list that expires at time 1000 comes back for good. -/
theorem list_loses_expiry :
    let v : RedisValue NatScore := { type := .list, listVal := [str "a"], expiryTime := 1000 }
    let x := loadRound (S := NatScore) (saveEntry (str "k", v) ++ [rdbOpcodeEof])
    x.2 = some [rdbOpcodeEof] ∧
      ((Call.run x.1 (∅ : Data NatScore)).find? (str "k")).map RedisValue.expiryTime = some 0 ∧
      ¬ ExpiryPreserved (str "k") v ∅ [rdbOpcodeEof] := by
  intro v x
  have hzero : ((Call.run x.1 (∅ : Data NatScore)).find? (str "k")).map RedisValue.expiryTime =
      some 0 := by decide
  refine ⟨by decide, hzero, ?_⟩
  rintro ⟨calls, hload, hfind⟩
  replace hload : x = (calls, some [rdbOpcodeEof]) := hload
  rw [hload] at hzero
  rw [hzero] at hfind
  exact absurd hfind (by decide)

end MinimalRedis
