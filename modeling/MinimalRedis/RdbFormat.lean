import MinimalRedis.Rdb

/-!
# What the RDB reader accepts

The reader of `Rdb.lean` described by what it reads: an `Item` is one round of the opcode loop, with the
bytes it takes and the calls it makes.  The reader is more liberal than the writer: it takes a long
length for a short string, any low bits beside the long flag, and it skips an unknown type byte
**together with the string behind it**.

* `loadLoop_iff` — the loop succeeds exactly on a row of items, followed by nothing or by the EOF
  opcode, and makes exactly their calls.
-/

namespace MinimalRedis

open Lib

/-! ### Length-encoded strings -/

/-- A length-encoded string as the reader takes it. -/
inductive Encoded where
  | short (content : Bytes) (fits : content.length < 64)
  | long (flag : UInt8) (isFlag : flag &&& 0xC0 = 0x80) (content : Bytes)
      (fits : content.length < 2 ^ 32)

namespace Encoded

def content : Encoded → Bytes
  | short s _ => s
  | long _ _ s _ => s

def bytes : Encoded → Bytes
  | short s _ => UInt8.ofNat s.length :: s
  | long flag _ s _ => flag :: (leBytes 4 s.length ++ s)

end Encoded

theorem readN_eq_some_iff {n : ℕ} {bs x rest : Bytes} :
    readN n bs = some (x, rest) ↔ x.length = n ∧ bs = x ++ rest := by
  unfold readN
  constructor
  · intro h
    split at h
    · rename_i hle
      obtain ⟨rfl, rfl⟩ := Prod.mk.inj (Option.some.inj h)
      exact ⟨List.length_take_of_le hle, (List.take_append_drop n bs).symm⟩
    · cases h
  · intro h
    obtain ⟨rfl, rfl⟩ := h
    rw [if_pos (by simp), List.take_left, List.drop_left]

/-- A byte with its two high bits clear is its own low part. -/
theorem low_of_high_clear {b : UInt8} (h : b &&& 0xC0 = 0) : b &&& 0x3F = b ∧ b.toNat < 64 := by
  have hall : ∀ n : Fin 256, UInt8.ofNat n &&& 0xC0 = 0 →
      UInt8.ofNat n &&& 0x3F = UInt8.ofNat n ∧ (UInt8.ofNat n).toNat < 64 := by decide +kernel
  have hb := hall ⟨b.toNat, b.toNat_lt⟩
  simp only [UInt8.ofNat_toNat] at hb
  exact hb h

theorem high_clear_of_lt {n : ℕ} (h : n < 64) :
    UInt8.ofNat n &&& 0xC0 = 0 ∧ (UInt8.ofNat n &&& 0x3F).toNat = n := by
  have hall : ∀ n : Fin 64, UInt8.ofNat n &&& 0xC0 = 0 ∧ (UInt8.ofNat n &&& 0x3F).toNat = n := by
    decide +kernel
  exact hall ⟨n, h⟩

theorem readLengthEncoded_eq_some_iff {bs s rest : Bytes} :
    readLengthEncoded bs = some (s, rest) ↔ ∃ e : Encoded, e.content = s ∧ bs = e.bytes ++ rest := by
  constructor
  · intro h
    match bs with
    | [] => cases h
    | b :: bs =>
      unfold readLengthEncoded at h
      simp only at h
      split at h
      · rename_i hclear
        obtain ⟨hlow, hlt⟩ := low_of_high_clear hclear
        rw [hlow] at h
        obtain ⟨hlen, rfl⟩ := readN_eq_some_iff.mp h
        refine ⟨.short s (by omega), rfl, ?_⟩
        simp [Encoded.bytes, hlen]
      · split at h
        · rename_i hflag
          obtain ⟨⟨len, bs'⟩, hread, hread'⟩ := Option.bind_eq_some_iff.mp h
          obtain ⟨hlen, rfl⟩ := readN_eq_some_iff.mp hread
          obtain ⟨hs, rfl⟩ := readN_eq_some_iff.mp hread'
          have hlt : s.length < 2 ^ 32 := by
            rw [hs]
            have := ofLE_lt len
            rw [hlen] at this
            omega
          refine ⟨.long b hflag s hlt, rfl, ?_⟩
          have hbytes : leBytes 4 s.length = len := by
            rw [hs, ← hlen, leBytes_ofLE]
          simp [Encoded.bytes, hbytes]
        · cases h
  · intro h
    obtain ⟨e, rfl, rfl⟩ := h
    cases e with
    | short s fits =>
      obtain ⟨hclear, hlow⟩ := high_clear_of_lt fits
      simp only [Encoded.bytes, Encoded.content, List.cons_append, readLengthEncoded, if_pos hclear,
        hlow]
      exact readN_eq_some_iff.mpr ⟨rfl, rfl⟩
    | long flag isFlag s fits =>
      have hnot : ¬ flag &&& 0xC0 = 0 := by
        rw [isFlag]
        decide
      simp only [Encoded.bytes, Encoded.content, List.cons_append, readLengthEncoded, if_neg hnot,
        if_pos isFlag, List.append_assoc]
      rw [readN_eq_some_iff.mpr ⟨length_leBytes 4 s.length, rfl⟩]
      simp only [Option.bind_some]
      rw [ofLE_leBytes (by omega)]
      exact readN_eq_some_iff.mpr ⟨rfl, rfl⟩

/-! ### Counted rows -/

theorem readStrings_eq_some_iff {n : ℕ} {bs rest : Bytes} {ss : List Bytes} :
    readStrings n bs = some (ss, rest) ↔ ∃ es : List Encoded, es.length = n ∧
      es.map Encoded.content = ss ∧ bs = es.flatMap Encoded.bytes ++ rest := by
  induction n generalizing bs ss with
  | zero =>
    constructor
    · intro h
      obtain ⟨rfl, rfl⟩ := Prod.mk.inj (Option.some.inj h)
      exact ⟨[], rfl, rfl, rfl⟩
    · intro h
      obtain ⟨es, hlen, rfl, rfl⟩ := h
      obtain rfl := List.eq_nil_of_length_eq_zero hlen
      rfl
  | succ n ih =>
    constructor
    · intro h
      obtain ⟨⟨s, bs'⟩, hs, h⟩ := Option.bind_eq_some_iff.mp h
      obtain ⟨⟨ss', bs''⟩, hss, h⟩ := Option.map_eq_some_iff.mp h
      obtain ⟨rfl, rfl⟩ := Prod.mk.inj h
      obtain ⟨e, rfl, rfl⟩ := readLengthEncoded_eq_some_iff.mp hs
      obtain ⟨es, hlen, rfl, rfl⟩ := ih.mp hss
      exact ⟨e :: es, by simp [hlen], rfl, by simp⟩
    · intro h
      obtain ⟨es, hlen, rfl, rfl⟩ := h
      match es, hlen with
      | e :: es, hlen =>
        have hrest := ih.mpr ⟨es, by simpa using hlen, rfl, rfl⟩
        rw [readStrings, List.flatMap_cons, List.append_assoc,
          readLengthEncoded_eq_some_iff.mpr ⟨e, rfl, rfl⟩]
        simp only [Option.bind_some, hrest, Option.map_some, List.map_cons]

/-- Eight raw bytes: a stored double or a timestamp. -/
abbrev Word := { bs : Bytes // bs.length = 8 }

variable {S : Type} [Score S]

/-- A member and its score, as bytes and as the pair they stand for. -/
def memberBytes (m : Encoded × Word) : Bytes := m.1.bytes ++ m.2.val

def memberPair (m : Encoded × Word) : S × Bytes := (Score.ofBytes m.2.val, m.1.content)

theorem readMembers_eq_some_iff {n : ℕ} {bs rest : Bytes} {ps : List (S × Bytes)} :
    readMembers n bs = some (ps, rest) ↔ ∃ ms : List (Encoded × Word), ms.length = n ∧
      ms.map memberPair = ps ∧ bs = ms.flatMap memberBytes ++ rest := by
  induction n generalizing bs ps with
  | zero =>
    constructor
    · intro h
      obtain ⟨rfl, rfl⟩ := Prod.mk.inj (Option.some.inj h)
      exact ⟨[], rfl, rfl, rfl⟩
    · intro h
      obtain ⟨ms, hlen, rfl, rfl⟩ := h
      obtain rfl := List.eq_nil_of_length_eq_zero hlen
      rfl
  | succ n ih =>
    constructor
    · intro h
      obtain ⟨⟨s, bs'⟩, hs, h⟩ := Option.bind_eq_some_iff.mp h
      obtain ⟨⟨score, bs''⟩, hscore, h⟩ := Option.bind_eq_some_iff.mp h
      obtain ⟨⟨ps', bs'''⟩, hps, h⟩ := Option.map_eq_some_iff.mp h
      obtain ⟨rfl, rfl⟩ := Prod.mk.inj h
      obtain ⟨e, rfl, rfl⟩ := readLengthEncoded_eq_some_iff.mp hs
      obtain ⟨hword, rfl⟩ := readN_eq_some_iff.mp hscore
      obtain ⟨ms, hlen, rfl, rfl⟩ := ih.mp hps
      exact ⟨(e, ⟨score, hword⟩) :: ms, by simp [hlen], rfl, by simp [memberBytes]⟩
    · intro h
      obtain ⟨ms, hlen, rfl, rfl⟩ := h
      match ms, hlen with
      | m :: ms, hlen =>
        have hrest := ih.mpr ⟨ms, by simpa using hlen, rfl, rfl⟩
        rw [readMembers, List.flatMap_cons, memberBytes, List.append_assoc, List.append_assoc,
          readLengthEncoded_eq_some_iff.mpr ⟨m.1, rfl, rfl⟩]
        simp only [Option.bind_some]
        rw [readN_eq_some_iff.mpr ⟨m.2.property, rfl⟩]
        simp only [Option.bind_some, hrest, Option.map_some, List.map_cons]
        rfl

/-- A field and its value. -/
def fieldBytes (f : Encoded × Encoded) : Bytes := f.1.bytes ++ f.2.bytes

def fieldCall (key : Bytes) (f : Encoded × Encoded) : Call S := .hset key f.1.content f.2.content

theorem readFields_eq_some_iff {key : Bytes} {n : ℕ} {bs rest : Bytes} {calls : List (Call S)} :
    readFields key n bs = (calls, some rest) ↔ ∃ fs : List (Encoded × Encoded), fs.length = n ∧
      fs.map (fieldCall key) = calls ∧ bs = fs.flatMap fieldBytes ++ rest := by
  induction n generalizing bs calls with
  | zero =>
    constructor
    · intro h
      obtain ⟨rfl, hrest⟩ := Prod.mk.inj h
      obtain rfl := Option.some.inj hrest
      exact ⟨[], rfl, rfl, rfl⟩
    · intro h
      obtain ⟨fs, hlen, rfl, rfl⟩ := h
      obtain rfl := List.eq_nil_of_length_eq_zero hlen
      rfl
  | succ n ih =>
    constructor
    · intro h
      unfold readFields at h
      split at h
      · cases h
      · rename_i field bs' hfield
        split at h
        · cases h
        · rename_i value bs'' hvalue
          obtain ⟨rfl, hrest⟩ := Prod.mk.inj h
          obtain ⟨f, rfl, rfl⟩ := readLengthEncoded_eq_some_iff.mp hfield
          obtain ⟨x, rfl, rfl⟩ := readLengthEncoded_eq_some_iff.mp hvalue
          obtain ⟨fs, hlen, hcalls, rfl⟩ := ih.mp (Prod.ext rfl hrest)
          refine ⟨(f, x) :: fs, by simp [hlen], ?_, by simp [fieldBytes]⟩
          rw [List.map_cons, hcalls]
          rfl
    · intro h
      obtain ⟨fs, hlen, rfl, rfl⟩ := h
      match fs, hlen with
      | f :: fs, hlen =>
        have hrest := ih.mpr ⟨fs, by simpa using hlen, rfl, rfl⟩
        rw [readFields, List.flatMap_cons, fieldBytes, List.append_assoc, List.append_assoc,
          readLengthEncoded_eq_some_iff.mpr ⟨f.1, rfl, rfl⟩]
        simp only
        rw [readLengthEncoded_eq_some_iff.mpr ⟨f.2, rfl, rfl⟩]
        simp only [hrest, List.map_cons]
        rfl

theorem readCount_eq_some_iff {bs rest : Bytes} {n : ℕ} :
    readCount bs = some (n, rest) ↔ n < 2 ^ 32 ∧ bs = leBytes 4 n ++ rest := by
  unfold readCount
  constructor
  · intro h
    obtain ⟨⟨x, bs'⟩, hx, h⟩ := Option.map_eq_some_iff.mp h
    obtain ⟨rfl, rfl⟩ := Prod.mk.inj h
    obtain ⟨hlen, rfl⟩ := readN_eq_some_iff.mp hx
    have hlt := ofLE_lt x
    simp only [hlen] at hlt
    refine ⟨by omega, ?_⟩
    rw [← hlen, leBytes_ofLE]
  · intro h
    obtain ⟨hn, rfl⟩ := h
    rw [readN_eq_some_iff.mpr ⟨length_leBytes 4 n, rfl⟩]
    simp only [Option.map_some]
    rw [ofLE_leBytes (by omega)]

/-- A count, and then as many elements as it says. -/
theorem counted_eq_some_iff {α ε : Type} {read : ℕ → Bytes → Option (List α × Bytes)}
    {content : ε → α} {spell : ε → Bytes}
    (hread : ∀ n bs xs rest, read n bs = some (xs, rest) ↔
      ∃ es : List ε, es.length = n ∧ es.map content = xs ∧ bs = es.flatMap spell ++ rest)
    {bs rest : Bytes} {xs : List α} :
    ((readCount bs).bind fun x => read x.1 x.2) = some (xs, rest) ↔
      ∃ es : List ε, es.length < 2 ^ 32 ∧ es.map content = xs ∧
        bs = leBytes 4 es.length ++ es.flatMap spell ++ rest := by
  constructor
  · intro h
    obtain ⟨⟨n, bs'⟩, hcount, helems⟩ := Option.bind_eq_some_iff.mp h
    obtain ⟨hn, rfl⟩ := readCount_eq_some_iff.mp hcount
    obtain ⟨es, rfl, rfl, rfl⟩ := (hread _ _ _ _).mp helems
    exact ⟨es, hn, rfl, (List.append_assoc ..).symm⟩
  · intro h
    obtain ⟨es, hn, rfl, rfl⟩ := h
    rw [List.append_assoc, readCount_eq_some_iff.mpr ⟨hn, rfl⟩, Option.bind_some]
    exact (hread _ _ _ _).mpr ⟨es, rfl, rfl, rfl⟩

theorem countedStrings_eq_some_iff {bs rest : Bytes} {values : List Bytes} :
    ((readCount bs).bind fun x => readStrings x.1 x.2) = some (values, rest) ↔
      ∃ es : List Encoded, es.length < 2 ^ 32 ∧ es.map Encoded.content = values ∧
        bs = leBytes 4 es.length ++ es.flatMap Encoded.bytes ++ rest :=
  counted_eq_some_iff fun _ _ _ _ => readStrings_eq_some_iff

theorem countedMembers_eq_some_iff {bs rest : Bytes} {members : List (S × Bytes)} :
    ((readCount bs).bind fun x => readMembers x.1 x.2) = some (members, rest) ↔
      ∃ es : List (Encoded × Word), es.length < 2 ^ 32 ∧ es.map memberPair = members ∧
        bs = leBytes 4 es.length ++ es.flatMap memberBytes ++ rest :=
  counted_eq_some_iff fun _ _ _ _ => readMembers_eq_some_iff

/-! ### Records -/

/-- What follows a type byte and a key. -/
inductive Payload where
  | string (value : Encoded)
  | list (values : List Encoded) (fits : values.length < 2 ^ 32)
  | set (members : List Encoded) (fits : members.length < 2 ^ 32)
  | zset (members : List (Encoded × Word)) (fits : members.length < 2 ^ 32)
  | hash (fields : List (Encoded × Encoded)) (fits : fields.length < 2 ^ 32)
  | selectdb
  | unknown (type : UInt8) (h : type ∉ [rdbTypeString, rdbTypeList, rdbTypeSet, rdbTypeZset,
      rdbTypeHash, rdbOpcodeSelectdb])

namespace Payload

def type : Payload → UInt8
  | string _ => rdbTypeString
  | list _ _ => rdbTypeList
  | set _ _ => rdbTypeSet
  | zset _ _ => rdbTypeZset
  | hash _ _ => rdbTypeHash
  | selectdb => rdbOpcodeSelectdb
  | unknown type _ => type

def bytes : Payload → Bytes
  | string value => value.bytes
  | list values _ => leBytes 4 values.length ++ values.flatMap Encoded.bytes
  | set members _ => leBytes 4 members.length ++ members.flatMap Encoded.bytes
  | zset members _ => leBytes 4 members.length ++ members.flatMap memberBytes
  | hash fields _ => leBytes 4 fields.length ++ fields.flatMap fieldBytes
  | selectdb => [0]
  | unknown _ _ => []

/-- The calls the reader makes for the payload. -/
def calls (key : Bytes) (expiryMs : ℤ) : Payload → List (Call S)
  | string value =>
      .set key value.content :: if expiryMs > 0 then [.setExpiryTime key expiryMs] else []
  | list values _ => values.map fun value => .rpush key [value.content]
  | set members _ => [.sadd key (members.map Encoded.content)]
  | zset members _ => [.zadd key (members.map memberPair)]
  | hash fields _ => fields.map (fieldCall key)
  | selectdb => []
  | unknown _ _ => []

end Payload

/-- What the switch of the reader takes is a payload of its type. -/
theorem exists_payload_of_loadRecord {type : UInt8} {expiryMs : ℤ} {key bs rest : Bytes}
    {calls : List (Call S)} (h : loadRecord type expiryMs key bs = (calls, some rest)) :
    ∃ p : Payload, p.type = type ∧ bs = p.bytes ++ rest ∧ p.calls key expiryMs = calls := by
  unfold loadRecord at h
  split at h
  · rename_i htype
    split at h
    · cases h
    · rename_i value bs' hvalue
      obtain ⟨rfl, hrest⟩ := Prod.mk.inj h
      obtain rfl := Option.some.inj hrest
      obtain ⟨e, rfl, rfl⟩ := readLengthEncoded_eq_some_iff.mp hvalue
      exact ⟨.string e, htype.symm, rfl, rfl⟩
  · rename_i hstring
    split at h
    · rename_i htype
      split at h
      · cases h
      · rename_i values bs' hvalues
        obtain ⟨rfl, hrest⟩ := Prod.mk.inj h
        obtain rfl := Option.some.inj hrest
        obtain ⟨es, hn, rfl, rfl⟩ := countedStrings_eq_some_iff.mp hvalues
        exact ⟨.list es hn, htype.symm, rfl, by simp [Payload.calls]⟩
    · rename_i hlist
      split at h
      · rename_i htype
        split at h
        · cases h
        · rename_i members bs' hmembers
          obtain ⟨rfl, hrest⟩ := Prod.mk.inj h
          obtain rfl := Option.some.inj hrest
          obtain ⟨es, hn, rfl, rfl⟩ := countedStrings_eq_some_iff.mp hmembers
          exact ⟨.set es hn, htype.symm, rfl, rfl⟩
      · rename_i hset
        split at h
        · rename_i htype
          split at h
          · cases h
          · rename_i members bs' hmembers
            obtain ⟨rfl, hrest⟩ := Prod.mk.inj h
            obtain rfl := Option.some.inj hrest
            obtain ⟨ms, hn, rfl, rfl⟩ := countedMembers_eq_some_iff.mp hmembers
            exact ⟨.zset ms hn, htype.symm, rfl, rfl⟩
        · rename_i hzset
          split at h
          · rename_i htype
            split at h
            · cases h
            · rename_i size bs' hcount
              obtain ⟨hn, rfl⟩ := readCount_eq_some_iff.mp hcount
              obtain ⟨fs, rfl, rfl, rfl⟩ := readFields_eq_some_iff.mp h
              exact ⟨.hash fs hn, htype.symm, by simp [Payload.bytes], rfl⟩
          · rename_i hhash
            split at h
            · rename_i htype
              split at h
              · cases h
              · rename_i dbNum bs'
                split at h
                · cases h
                · rename_i hzero
                  obtain ⟨rfl, hrest⟩ := Prod.mk.inj h
                  obtain rfl := Option.some.inj hrest
                  obtain rfl := not_not.mp hzero
                  exact ⟨.selectdb, htype.symm, rfl, rfl⟩
            · rename_i hselect
              obtain ⟨rfl, hrest⟩ := Prod.mk.inj h
              obtain rfl := Option.some.inj hrest
              have hunknown : type ∉ [rdbTypeString, rdbTypeList, rdbTypeSet, rdbTypeZset,
                  rdbTypeHash, rdbOpcodeSelectdb] := by
                simp only [List.mem_cons, List.not_mem_nil, or_false, not_or]
                exact ⟨hstring, hlist, hset, hzset, hhash, hselect⟩
              exact ⟨.unknown type hunknown, rfl, rfl, rfl⟩

/-- Every payload is taken, whatever follows it. -/
theorem loadRecord_payload (p : Payload) (expiryMs : ℤ) (key rest : Bytes) :
    loadRecord (S := S) p.type expiryMs key (p.bytes ++ rest) = (p.calls key expiryMs, some rest) := by
  cases p with
  | string value =>
    simp only [loadRecord, Payload.type, if_true, Payload.bytes,
      readLengthEncoded_eq_some_iff.mpr ⟨value, rfl, rfl⟩]
    rfl
  | list values fits =>
    simp only [loadRecord, Payload.type, Payload.bytes,
      countedStrings_eq_some_iff.mpr ⟨values, fits, rfl, rfl⟩]
    rw [if_neg (by decide), if_pos trivial, List.map_map]
    rfl
  | set members fits =>
    simp only [loadRecord, Payload.type, Payload.bytes,
      countedStrings_eq_some_iff.mpr ⟨members, fits, rfl, rfl⟩]
    rw [if_neg (by decide), if_neg (by decide), if_pos trivial]
    rfl
  | zset members fits =>
    simp only [loadRecord, Payload.type, Payload.bytes,
      countedMembers_eq_some_iff.mpr ⟨members, fits, rfl, rfl⟩]
    rw [if_neg (by decide), if_neg (by decide), if_neg (by decide), if_pos trivial]
    rfl
  | hash fields fits =>
    simp only [loadRecord, Payload.type, Payload.bytes, List.append_assoc,
      readCount_eq_some_iff.mpr ⟨fits, rfl⟩,
      readFields_eq_some_iff.mpr ⟨fields, rfl, rfl, rfl⟩]
    rw [if_neg (by decide), if_neg (by decide), if_neg (by decide), if_neg (by decide), if_pos trivial]
    rfl
  | selectdb => rfl
  | unknown type h =>
    simp only [List.mem_cons, List.not_mem_nil, or_false, not_or] at h
    obtain ⟨hstring, hlist, hset, hzset, hhash, hselect⟩ := h
    simp only [loadRecord, Payload.type, hstring, hlist, hset, hzset, hhash, hselect, if_false]
    rfl

/-- The switch of the reader takes exactly the payloads of its type. -/
theorem loadRecord_eq_some_iff {type : UInt8} {expiryMs : ℤ} {key bs rest : Bytes}
    {calls : List (Call S)} :
    loadRecord type expiryMs key bs = (calls, some rest) ↔
      ∃ p : Payload, p.type = type ∧ bs = p.bytes ++ rest ∧ p.calls key expiryMs = calls := by
  constructor
  · exact exists_payload_of_loadRecord
  · rintro ⟨p, rfl, rfl, rfl⟩
    exact loadRecord_payload p expiryMs key rest

/-! ### Items and the opcode loop -/

/-- One round of the opcode loop.  Behind a timestamp any type byte is taken; without one, the EOF and
expiry opcodes are no type bytes. -/
structure Item where
  stamp : Option Word
  key : Encoded
  payload : Payload
  valid : stamp = none → payload.type ≠ rdbOpcodeEof ∧ payload.type ≠ rdbOpcodeExpiretimeMs

namespace Item

def stampBytes (item : Item) : Bytes :=
  match item.stamp with
  | none => []
  | some word => rdbOpcodeExpiretimeMs :: word.val

def expiryMs (item : Item) : ℤ :=
  match item.stamp with
  | none => -1
  | some word => wrap64 (ofLE word.val)

def bytes (item : Item) : Bytes :=
  item.stampBytes ++ item.payload.type :: (item.key.bytes ++ item.payload.bytes)

def calls (item : Item) : List (Call S) := item.payload.calls item.key.content item.expiryMs

theorem bytes_ne_nil (item : Item) : item.bytes ≠ [] := by simp [bytes]

/-- An item does not start like the end of the file. -/
theorem head_bytes_ne_eof (item : Item) (rest : Bytes) :
    (item.bytes ++ rest).head? ≠ some rdbOpcodeEof := by
  obtain ⟨stamp, key, payload, valid⟩ := item
  cases stamp with
  | none => simpa [bytes, stampBytes] using (valid rfl).1
  | some word =>
    simp only [bytes, stampBytes, List.cons_append, List.head?_cons, ne_eq, Option.some.injEq]
    decide

end Item

theorem loadTyped_eq_some_iff {type : UInt8} {expiryMs : ℤ} {bs rest : Bytes}
    {calls : List (Call S)} :
    loadTyped type expiryMs bs = (calls, some rest) ↔
      ∃ (key : Encoded) (p : Payload), p.type = type ∧ bs = key.bytes ++ (p.bytes ++ rest) ∧
        p.calls key.content expiryMs = calls := by
  unfold loadTyped
  constructor
  · intro h
    split at h
    · cases h
    · rename_i key bs' hkey
      obtain ⟨e, rfl, rfl⟩ := readLengthEncoded_eq_some_iff.mp hkey
      obtain ⟨p, htype, rfl, hcalls⟩ := loadRecord_eq_some_iff.mp h
      exact ⟨e, p, htype, rfl, hcalls⟩
  · intro h
    obtain ⟨key, p, rfl, rfl, rfl⟩ := h
    rw [readLengthEncoded_eq_some_iff.mpr ⟨key, rfl, rfl⟩]
    exact loadRecord_eq_some_iff.mpr ⟨p, rfl, rfl, rfl⟩

theorem loadEntry_eq_some_iff {opcode : UInt8} {bs rest : Bytes} {calls : List (Call S)}
    (hopcode : opcode ≠ rdbOpcodeEof) :
    loadEntry opcode bs = (calls, some rest) ↔
      ∃ item : Item, opcode :: bs = item.bytes ++ rest ∧ item.calls = calls := by
  unfold loadEntry
  constructor
  · intro h
    split at h
    · rename_i hstamp
      split at h
      · cases h
      · cases h
      · rename_i word type bs' hword
        obtain ⟨hlen, rfl⟩ := readN_eq_some_iff.mp hword
        obtain ⟨key, p, rfl, rfl, rfl⟩ := loadTyped_eq_some_iff.mp h
        refine ⟨⟨some ⟨word, hlen⟩, key, p, fun hnone => by cases hnone⟩, ?_, rfl⟩
        simp [Item.bytes, Item.stampBytes, hstamp]
    · rename_i hstamp
      obtain ⟨key, p, rfl, rfl, rfl⟩ := loadTyped_eq_some_iff.mp h
      refine ⟨⟨none, key, p, fun _ => ⟨hopcode, hstamp⟩⟩, ?_, rfl⟩
      simp [Item.bytes, Item.stampBytes]
  · intro h
    obtain ⟨⟨stamp, key, payload, valid⟩, hbytes, rfl⟩ := h
    cases stamp with
    | none =>
      obtain ⟨rfl, rfl⟩ : opcode = payload.type ∧ bs = key.bytes ++ (payload.bytes ++ rest) := by
        simpa [Item.bytes, Item.stampBytes] using hbytes
      rw [if_neg (valid rfl).2]
      exact loadTyped_eq_some_iff.mpr ⟨key, payload, rfl, rfl, rfl⟩
    | some word =>
      obtain ⟨rfl, rfl⟩ : opcode = rdbOpcodeExpiretimeMs ∧
          bs = word.val ++ payload.type :: (key.bytes ++ (payload.bytes ++ rest)) := by
        simpa [Item.bytes, Item.stampBytes] using hbytes
      rw [if_pos rfl, readN_eq_some_iff.mpr ⟨word.property, rfl⟩]
      exact loadTyped_eq_some_iff.mpr ⟨key, payload, rfl, rfl, rfl⟩

/-- No byte is left. -/
theorem loadLoop_nil_iff {fuel : ℕ} {calls : List (Call S)} :
    loadLoop fuel [] = (true, calls) ↔
      ∃ (items : List Item) (rest : Bytes), [] = items.flatMap Item.bytes ++ rest ∧
        (rest = [] ∨ rest.head? = some rdbOpcodeEof) ∧ items.flatMap Item.calls = calls := by
  have hloop : loadLoop (S := S) fuel [] = (true, []) := by
    cases fuel <;> rfl
  rw [hloop]
  constructor
  · intro h
    obtain ⟨-, rfl⟩ := Prod.mk.inj h
    exact ⟨[], [], rfl, .inl rfl, rfl⟩
  · intro h
    obtain ⟨items, rest, hbytes, -, rfl⟩ := h
    cases items with
    | nil => rfl
    | cons item items => simp [item.bytes_ne_nil] at hbytes

/-- The loop succeeds exactly on a row of items up to the end of the bytes or the EOF opcode. -/
theorem loadLoop_iff {fuel : ℕ} {bs : Bytes} {calls : List (Call S)} (hfuel : bs.length ≤ fuel) :
    loadLoop fuel bs = (true, calls) ↔
      ∃ (items : List Item) (rest : Bytes), bs = items.flatMap Item.bytes ++ rest ∧
        (rest = [] ∨ rest.head? = some rdbOpcodeEof) ∧ items.flatMap Item.calls = calls := by
  induction fuel generalizing bs calls with
  | zero =>
    obtain rfl := List.eq_nil_of_length_eq_zero (Nat.le_zero.mp hfuel)
    exact loadLoop_nil_iff
  | succ fuel ih =>
    match bs with
    | [] => exact loadLoop_nil_iff
    | opcode :: bs =>
      by_cases heof : opcode = rdbOpcodeEof
      · subst heof
        rw [loadLoop, if_pos rfl]
        constructor
        · intro h
          obtain ⟨-, rfl⟩ := Prod.mk.inj h
          exact ⟨[], _, rfl, .inr rfl, rfl⟩
        · intro h
          obtain ⟨items, rest, hbytes, -, rfl⟩ := h
          cases items with
          | nil => rfl
          | cons item items =>
            rw [List.flatMap_cons, List.append_assoc] at hbytes
            exact absurd (by rw [← hbytes]; rfl) (item.head_bytes_ne_eof _)
      · rw [loadLoop, if_neg heof]
        constructor
        · intro h
          split at h
          · cases h
          · rename_i entryCalls bs' hentry
            obtain ⟨item, hbytes, rfl⟩ := (loadEntry_eq_some_iff heof).mp hentry
            obtain ⟨htrue, rfl⟩ := Prod.mk.inj h
            have hlen : bs'.length ≤ fuel := by
              have hpos := List.length_pos_iff.mpr item.bytes_ne_nil
              have := congrArg List.length hbytes
              rw [List.length_append, List.length_cons] at this
              rw [List.length_cons] at hfuel
              omega
            obtain ⟨items, rest, rfl, hrest, hcalls⟩ := (ih hlen).mp (Prod.ext htrue rfl)
            refine ⟨item :: items, rest, by rw [hbytes]; simp, hrest, ?_⟩
            rw [List.flatMap_cons, hcalls]
        · intro h
          obtain ⟨items, rest, hbytes, hrest, rfl⟩ := h
          cases items with
          | nil =>
            have hrest' : opcode :: bs = rest := hbytes
            subst hrest'
            rcases hrest with hnil | hhead
            · cases hnil
            · exact absurd (Option.some.inj hhead) heof
          | cons item items =>
            rw [List.flatMap_cons, List.append_assoc] at hbytes
            have hlen : (items.flatMap Item.bytes ++ rest).length ≤ fuel := by
              have hpos := List.length_pos_iff.mpr item.bytes_ne_nil
              have := congrArg List.length hbytes
              rw [List.length_append, List.length_cons] at this
              rw [List.length_cons] at hfuel
              omega
            rw [(loadEntry_eq_some_iff heof).mpr ⟨item, hbytes, rfl⟩]
            simp only
            rw [(ih hlen).mpr ⟨items, rest, rfl, hrest, rfl⟩]
            rfl

end MinimalRedis
