import MinimalRedis.RdbExpiry

/-!
# Failed and truncated loads

The reader writes each record into the live database as soon as it is read, a hash even pair by pair,
and a later `return false` takes nothing back.  Its loop also ends when no byte is left, so a file cut
between two records is a complete one to it.

* `GivesUp bs ws` — the reader gives up on `bs` with the writes `ws` made by then;
* `failed_load_iff` — a failed load leaves no trace exactly when these writes bring no news;
* `truncation_detected_iff` — which cuts of a saved file the reader notices, and when a successful
  load has seen the EOF opcode.
-/

namespace MinimalRedis

open Lib

variable {S : Type} [Score S]

/-! ### Where the reader gives up -/

/-- Neither the end of the file nor an item. -/
def Stuck (tail : Bytes) : Prop :=
  tail ≠ [] ∧ tail.head? ≠ some rdbOpcodeEof ∧ ∀ (item : Item) r, tail ≠ item.bytes ++ r

/-- A hash record that ends too early: some complete pairs, fewer than announced, and then none. -/
def OpenHash (tail : Bytes) (key : Encoded) (fields : List (Encoded × Encoded)) : Prop :=
  ∃ (front : Bytes) (n : ℕ) (r : Bytes),
    (front = [] ∨ ∃ word : Word, front = rdbOpcodeExpiretimeMs :: word.val) ∧
    n < 2 ^ 32 ∧ fields.length < n ∧
    tail = front ++ rdbTypeHash :: (key.bytes ++ (leBytes 4 n ++ (fields.flatMap fieldBytes ++ r))) ∧
    ∀ f r', r ≠ fieldBytes f ++ r'

variable (S) in
/-- The reader gives up on the bytes, and `ws` is what it has written by then: the items before, and
the complete pairs of a hash record it gives up in. -/
inductive GivesUp : Bytes → List (Bytes × Write S) → Prop
  | stuck {tail : Bytes} (h : Stuck tail) (hhash : ∀ key fields, ¬ OpenHash tail key fields) :
      GivesUp tail []
  | hash {tail : Bytes} {key : Encoded} {fields : List (Encoded × Encoded)}
      (h : OpenHash tail key fields) :
      GivesUp tail (fields.map fun f => (key.content, .field f.1.content f.2.content))
  | item (item : Item) {tail : Bytes} {ws : List (Bytes × Write S)} (h : GivesUp tail ws) :
      GivesUp (item.bytes ++ tail) (item.writes ++ ws)

/-- A pair is missing where one of its two strings is. -/
theorem no_field_iff {r : Bytes} :
    (∀ f r', r ≠ fieldBytes f ++ r') ↔
      ∀ field r', readLengthEncoded r = some (field, r') → readLengthEncoded r' = none := by
  constructor
  · intro h field r' hfield
    cases hvalue : readLengthEncoded r' with
    | none => rfl
    | some x =>
      obtain ⟨value, r''⟩ := x
      obtain ⟨e, rfl, rfl⟩ := readLengthEncoded_eq_some_iff.mp hfield
      obtain ⟨e', -, rfl⟩ := readLengthEncoded_eq_some_iff.mp hvalue
      exact absurd (by simp [fieldBytes]) (h (e, e') r'')
  · intro h f r' hr
    rw [fieldBytes, List.append_assoc] at hr
    have hnone := h _ _ (readLengthEncoded_eq_some_iff.mpr ⟨f.1, rfl, hr⟩)
    rw [readLengthEncoded_eq_some_iff.mpr ⟨f.2, rfl, rfl⟩] at hnone
    cases hnone

theorem readFields_eq_none_iff {key : Bytes} {n : ℕ} {bs : Bytes} {calls : List (Call S)} :
    readFields key n bs = (calls, none) ↔ ∃ (fs : List (Encoded × Encoded)) (r : Bytes),
      fs.length < n ∧ fs.map (fieldCall key) = calls ∧ bs = fs.flatMap fieldBytes ++ r ∧
        ∀ f r', r ≠ fieldBytes f ++ r' := by
  induction n generalizing bs calls with
  | zero =>
    constructor
    · intro h
      cases (Prod.mk.inj h).2
    · rintro ⟨fs, r, hlen, -⟩
      exact absurd hlen (Nat.not_lt_zero _)
  | succ n ih =>
    constructor
    · intro h
      unfold readFields at h
      split at h
      · rename_i hfield
        obtain ⟨rfl, -⟩ := Prod.mk.inj h
        refine ⟨[], bs, Nat.succ_pos n, rfl, rfl, no_field_iff.mpr ?_⟩
        intro field r' hsome
        rw [hfield] at hsome
        cases hsome
      · rename_i field bs' hfield
        split at h
        · rename_i hvalue
          obtain ⟨rfl, -⟩ := Prod.mk.inj h
          refine ⟨[], bs, Nat.succ_pos n, rfl, rfl, no_field_iff.mpr ?_⟩
          intro field' r' hsome
          rw [hfield] at hsome
          obtain ⟨-, rfl⟩ := Prod.mk.inj (Option.some.inj hsome)
          exact hvalue
        · rename_i value bs'' hvalue
          obtain ⟨rfl, hnone⟩ := Prod.mk.inj h
          obtain ⟨e, rfl, rfl⟩ := readLengthEncoded_eq_some_iff.mp hfield
          obtain ⟨e', rfl, rfl⟩ := readLengthEncoded_eq_some_iff.mp hvalue
          obtain ⟨fs, r, hlen, hcalls, rfl, hr⟩ := ih.mp (Prod.ext rfl hnone)
          refine ⟨(e, e') :: fs, r, by simpa using hlen, ?_, by simp [fieldBytes], hr⟩
          rw [List.map_cons, hcalls]
          rfl
    · rintro ⟨fs, r, hlen, rfl, rfl, hr⟩
      cases fs with
      | nil =>
        have hnone := no_field_iff.mp hr
        unfold readFields
        split
        · rfl
        · rename_i field bs' hfield
          rw [hnone field bs' hfield]
          rfl
      | cons f fs =>
        have hrest := ih.mpr ⟨fs, r, by simpa using hlen, rfl, rfl, hr⟩
        rw [readFields, List.flatMap_cons, fieldBytes, List.append_assoc, List.append_assoc,
          readLengthEncoded_eq_some_iff.mpr ⟨f.1, rfl, rfl⟩]
        simp only
        rw [readLengthEncoded_eq_some_iff.mpr ⟨f.2, rfl, rfl⟩]
        simp only [hrest, List.map_cons]
        rfl

/-- Only the hash branch of the switch writes before it gives up. -/
theorem loadRecord_eq_none {type : UInt8} {expiryMs : ℤ} {key bs : Bytes} {calls : List (Call S)}
    (h : loadRecord type expiryMs key bs = (calls, none)) :
    calls = [] ∨ type = rdbTypeHash ∧ ∃ n bs', readCount bs = some (n, bs') ∧
      readFields key n bs' = (calls, none) := by
  unfold loadRecord at h
  split at h
  · split at h
    · exact .inl (Prod.mk.inj h).1.symm
    · cases h
  · split at h
    · split at h
      · exact .inl (Prod.mk.inj h).1.symm
      · cases h
    · split at h
      · split at h
        · exact .inl (Prod.mk.inj h).1.symm
        · cases h
      · split at h
        · split at h
          · exact .inl (Prod.mk.inj h).1.symm
          · cases h
        · split at h
          · rename_i htype
            split at h
            · exact .inl (Prod.mk.inj h).1.symm
            · rename_i n bs' hcount
              exact .inr ⟨htype, n, bs', hcount, h⟩
          · split at h
            · split at h
              · exact .inl (Prod.mk.inj h).1.symm
              · split at h
                · exact .inl (Prod.mk.inj h).1.symm
                · cases h
            · cases h

theorem loadTyped_eq_none {type : UInt8} {expiryMs : ℤ} {bs : Bytes} {calls : List (Call S)}
    (h : loadTyped type expiryMs bs = (calls, none)) :
    calls = [] ∨ type = rdbTypeHash ∧ ∃ (key : Encoded) (n : ℕ) (fs : List (Encoded × Encoded)) (r : Bytes),
      n < 2 ^ 32 ∧ fs.length < n ∧ fs.map (fieldCall key.content) = calls ∧
      bs = key.bytes ++ (leBytes 4 n ++ (fs.flatMap fieldBytes ++ r)) ∧
      ∀ f r', r ≠ fieldBytes f ++ r' := by
  unfold loadTyped at h
  split at h
  · exact .inl (Prod.mk.inj h).1.symm
  · rename_i key bs' hkey
    obtain ⟨e, rfl, rfl⟩ := readLengthEncoded_eq_some_iff.mp hkey
    rcases loadRecord_eq_none h with hnil | ⟨htype, n, bs'', hcount, hfields⟩
    · exact .inl hnil
    · obtain ⟨hn, rfl⟩ := readCount_eq_some_iff.mp hcount
      obtain ⟨fs, r, hlen, hcalls, rfl, hr⟩ := readFields_eq_none_iff.mp hfields
      exact .inr ⟨htype, e, n, fs, r, hn, hlen, hcalls, rfl, hr⟩

/-- A round that gives up has written nothing, or the pairs of an open hash record. -/
theorem loadEntry_eq_none {opcode : UInt8} {bs : Bytes} {calls : List (Call S)}
    (h : loadEntry opcode bs = (calls, none)) :
    calls = [] ∨ ∃ key fs, OpenHash (opcode :: bs) key fs ∧ fs.map (fieldCall key.content) = calls := by
  unfold loadEntry at h
  split at h
  · rename_i hstamp
    split at h
    · exact .inl (Prod.mk.inj h).1.symm
    · exact .inl (Prod.mk.inj h).1.symm
    · rename_i word type bs' hword
      obtain ⟨hlen, rfl⟩ := readN_eq_some_iff.mp hword
      rcases loadTyped_eq_none h with hnil | ⟨rfl, key, n, fs, r, hn, hfs, hcalls, rfl, hr⟩
      · exact .inl hnil
      · refine .inr ⟨key, fs, ⟨rdbOpcodeExpiretimeMs :: word, n, r, .inr ⟨⟨word, hlen⟩, rfl⟩, hn, hfs,
          ?_, hr⟩, hcalls⟩
        rw [hstamp, List.cons_append]
  · rcases loadTyped_eq_none h with hnil | ⟨rfl, key, n, fs, r, hn, hfs, hcalls, rfl, hr⟩
    · exact .inl hnil
    · exact .inr ⟨key, fs, ⟨[], n, r, .inl rfl, hn, hfs, rfl, hr⟩, hcalls⟩

theorem loadTyped_openHash (expiryMs : ℤ) (key : Encoded) {n : ℕ} (hn : n < 2 ^ 32)
    {fs : List (Encoded × Encoded)} (hfs : fs.length < n) {r : Bytes}
    (hr : ∀ f r', r ≠ fieldBytes f ++ r') :
    loadTyped (S := S) rdbTypeHash expiryMs
      (key.bytes ++ (leBytes 4 n ++ (fs.flatMap fieldBytes ++ r))) =
      (fs.map (fieldCall key.content), none) := by
  rw [loadTyped, readLengthEncoded_eq_some_iff.mpr ⟨key, rfl, rfl⟩]
  show loadRecord rdbTypeHash expiryMs key.content _ = _
  unfold loadRecord
  rw [if_neg (by decide), if_neg (by decide), if_neg (by decide), if_neg (by decide), if_pos rfl,
    readCount_eq_some_iff.mpr ⟨hn, rfl⟩]
  exact readFields_eq_none_iff.mpr ⟨fs, r, hfs, rfl, rfl, hr⟩

theorem loadRound_openHash {tail : Bytes} {key : Encoded} {fs : List (Encoded × Encoded)}
    (h : OpenHash tail key fs) :
    loadRound (S := S) tail = (fs.map (fieldCall key.content), none) := by
  obtain ⟨front, n, r, hfront, hn, hfs, rfl, hr⟩ := h
  have htyped := fun expiryMs => loadTyped_openHash (S := S) expiryMs key hn hfs hr
  rcases hfront with rfl | ⟨word, rfl⟩
  · show loadEntry (S := S) rdbTypeHash _ = _
    rw [loadEntry, if_neg (by decide), htyped]
  · rw [List.cons_append, loadRound, loadEntry, if_pos rfl,
      readN_eq_some_iff.mpr ⟨word.property, rfl⟩]
    exact htyped _

theorem head_openHash_ne_eof {tail : Bytes} {key : Encoded} {fs : List (Encoded × Encoded)}
    (h : OpenHash tail key fs) : ∃ opcode bs, tail = opcode :: bs ∧ opcode ≠ rdbOpcodeEof := by
  obtain ⟨front, n, r, hfront, -, -, rfl, -⟩ := h
  rcases hfront with rfl | ⟨word, rfl⟩
  · exact ⟨_, _, rfl, by decide⟩
  · exact ⟨_, _, rfl, by decide⟩

/-! ### The opcode loop -/

theorem Item.exists_head (item : Item) (r : Bytes) :
    ∃ opcode bs, item.bytes ++ r = opcode :: bs ∧ opcode ≠ rdbOpcodeEof := by
  have hne : item.bytes ++ r ≠ [] := List.append_ne_nil_of_left_ne_nil item.bytes_ne_nil r
  obtain ⟨opcode, bs, hcons⟩ := List.exists_cons_of_ne_nil hne
  refine ⟨opcode, bs, hcons, ?_⟩
  intro heof
  apply item.head_bytes_ne_eof r
  rw [hcons, heof]
  rfl

theorem loadRound_item (item : Item) (r : Bytes) :
    loadRound (S := S) (item.bytes ++ r) = (item.calls, some r) := by
  obtain ⟨opcode, bs, hcons, hopcode⟩ := item.exists_head r
  rw [hcons]
  exact (loadEntry_eq_some_iff hopcode).mpr ⟨item, hcons.symm, rfl⟩

theorem loadLoop_round {opcode : UInt8} (hopcode : opcode ≠ rdbOpcodeEof) (fuel : ℕ) (bs : Bytes) :
    loadLoop (S := S) (fuel + 1) (opcode :: bs) =
      match loadRound (opcode :: bs) with
      | (calls, none) => (false, calls)
      | (calls, some bs) => ((loadLoop (S := S) fuel bs).1, calls ++ (loadLoop (S := S) fuel bs).2) := by
  rw [loadLoop, if_neg hopcode]
  rfl

/-- Where the reader gives up, it has made these writes.  By induction on the items before. -/
theorem loadLoop_of_givesUp {bs : Bytes} {ws : List (Bytes × Write S)} (h : GivesUp S bs ws) :
    ∀ fuel, bs.length ≤ fuel →
      ∃ calls, loadLoop (S := S) fuel bs = (false, calls) ∧ ∀ d, Call.run calls d = applyWrites ws d := by
  induction h with
  | stuck h hhash =>
    rename_i tail
    intro fuel hfuel
    obtain ⟨hne, heof, hitem⟩ := h
    obtain ⟨opcode, bs, rfl⟩ := List.exists_cons_of_ne_nil hne
    have hopcode : opcode ≠ rdbOpcodeEof := fun h => heof (by rw [h]; rfl)
    obtain ⟨fuel, rfl⟩ : ∃ n, fuel = n + 1 := ⟨fuel - 1, by rw [List.length_cons] at hfuel; omega⟩
    rw [loadLoop_round hopcode]
    obtain ⟨calls, rest, hround⟩ : ∃ calls rest, loadRound (S := S) (opcode :: bs) = (calls, rest) :=
      ⟨_, _, rfl⟩
    rw [hround]
    cases rest with
    | some rest =>
      obtain ⟨item, hbytes, -⟩ := (loadEntry_eq_some_iff hopcode).mp hround
      exact absurd hbytes (hitem item rest)
    | none =>
      rcases loadEntry_eq_none hround with rfl | ⟨key, fs, hopen, -⟩
      · exact ⟨[], rfl, fun d => rfl⟩
      · exact absurd hopen (hhash key fs)
  | hash h =>
    rename_i tail key fields
    intro fuel hfuel
    obtain ⟨opcode, bs, rfl, hopcode⟩ := head_openHash_ne_eof h
    obtain ⟨fuel, rfl⟩ : ∃ n, fuel = n + 1 := ⟨fuel - 1, by rw [List.length_cons] at hfuel; omega⟩
    rw [loadLoop_round hopcode, loadRound_openHash h]
    exact ⟨_, rfl, run_fieldCalls key.content fields⟩
  | item item h ih =>
    rename_i tail ws
    intro fuel hfuel
    have hround := loadRound_item (S := S) item tail
    obtain ⟨opcode, bs, hcons, hopcode⟩ := item.exists_head tail
    have hlen : tail.length + 1 ≤ fuel := by
      have hpos := List.length_pos_iff.mpr item.bytes_ne_nil
      rw [List.length_append] at hfuel
      omega
    obtain ⟨fuel, rfl⟩ : ∃ n, fuel = n + 1 := ⟨fuel - 1, by omega⟩
    obtain ⟨calls, hloop, hrun⟩ := ih fuel (by omega)
    rw [hcons] at hround ⊢
    rw [loadLoop_round hopcode, hround]
    simp only [hloop]
    refine ⟨_, rfl, fun d => ?_⟩
    rw [Call.run_append, run_item_calls, hrun, applyWrites_append]

theorem givesUp_of_loadLoop {fuel : ℕ} {bs : Bytes} {calls : List (Call S)}
    (h : loadLoop fuel bs = (false, calls)) : ∃ ws, GivesUp S bs ws := by
  induction fuel generalizing bs calls with
  | zero => cases h
  | succ fuel ih =>
    cases bs with
    | nil => cases h
    | cons opcode bs =>
      by_cases hopcode : opcode = rdbOpcodeEof
      · rw [loadLoop, if_pos hopcode] at h
        cases h
      · rw [loadLoop_round hopcode] at h
        obtain ⟨entry, rest, hround⟩ :
            ∃ entry rest, loadRound (S := S) (opcode :: bs) = (entry, rest) := ⟨_, _, rfl⟩
        rw [hround] at h
        cases rest with
        | some rest =>
          obtain ⟨item, hbytes, -⟩ := (loadEntry_eq_some_iff hopcode).mp hround
          obtain ⟨ws, hws⟩ := ih (Prod.ext (Prod.mk.inj h).1 rfl)
          rw [hbytes]
          exact ⟨_, .item item hws⟩
        | none =>
          by_cases hhash : ∃ key fs, OpenHash (opcode :: bs) key fs
          · obtain ⟨key, fs, hopen⟩ := hhash
            exact ⟨_, .hash hopen⟩
          · refine ⟨[], .stuck ⟨List.cons_ne_nil _ _, ?_, ?_⟩ fun key fs hopen => hhash ⟨key, fs, hopen⟩⟩
            · exact fun heof => hopcode (Option.some.inj heof)
            · intro item r hitem
              rw [hitem, loadRound_item] at hround
              cases (Prod.mk.inj hround).2

/-! ### Whole files -/

/-- The magic word and the version are read and the version is not looked at. -/
theorem loadCalls_header (version : UInt8) (body : Bytes) :
    loadCalls (S := S) (rdbMagic ++ version :: body) = loadLoop body.length body := by
  have hmagic : readN 5 (rdbMagic ++ version :: body) = some (rdbMagic, version :: body) :=
    readN_eq_some_iff.mpr ⟨rfl, rfl⟩
  rw [loadCalls, hmagic]
  exact if_neg (fun h => h rfl)

theorem loadCalls_no_header {file : Bytes} (h : ∀ version body, file ≠ rdbMagic ++ version :: body) :
    loadCalls (S := S) file = (false, []) := by
  unfold loadCalls
  split
  · rfl
  · rename_i magic bs hmagic
    split
    · rfl
    · rename_i hmagic'
      obtain ⟨-, rfl⟩ := readN_eq_some_iff.mp hmagic
      split
      · rfl
      · rename_i version body
        exact absurd (by rw [not_not.mp hmagic']) (h version body)

/-- If the load fails, the database is as it was. -/
def NoTrace (file : Bytes) (d : Data S) : Prop :=
  (loadRdb file d).1 = false → (loadRdb file d).2 = d

/-- **When a failed load leaves no trace.**  Whenever the reader gives up behind the header, everything
written by then is under keys that the database holds, and brings no news there. -/
theorem failed_load_iff (file : Bytes) (d : Data S) :
    NoTrace file d ↔
      ∀ version body ws, file = rdbMagic ++ version :: body → GivesUp S body ws →
        ∀ k, writesAt k ws ≠ [] → ∃ v, d.find? k = some v ∧ Known (writesAt k ws) v := by
  unfold NoTrace loadRdb
  by_cases hheader : ∃ version body, file = rdbMagic ++ version :: body
  · obtain ⟨version, body, rfl⟩ := hheader
    rw [loadCalls_header]
    constructor
    · intro h version' body' ws hfile hgives
      obtain ⟨-, rfl⟩ := List.cons.inj (List.append_cancel_left hfile)
      obtain ⟨calls, hloop, hrun⟩ := loadLoop_of_givesUp hgives _ (Nat.le_refl _)
      rw [hloop] at h
      rw [← applyWrites_eq_self_iff, ← hrun]
      exact h rfl
    · intro h hfalse
      obtain ⟨ws, hgives⟩ := givesUp_of_loadLoop (Prod.ext hfalse rfl)
      obtain ⟨calls, hloop, hrun⟩ := loadLoop_of_givesUp hgives _ (Nat.le_refl _)
      rw [hloop]
      show Call.run calls d = d
      rw [hrun, applyWrites_eq_self_iff]
      exact h version body ws rfl hgives
  · have hno : ∀ version body, file ≠ rdbMagic ++ version :: body :=
      fun version body h => hheader ⟨version, body, h⟩
    rw [loadCalls_no_header hno]
    refine iff_of_true (fun _ => rfl) ?_
    intro version body ws hfile
    exact absurd hfile (hno version body)

/-- A file that is cut inside its second record: the first one stays in the database. -/
theorem failed_load_keeps_record :
    let file := rdbMagic ++ [rdbVersion, rdbTypeString, 1, 107, 1, 118, rdbTypeString]
    (loadRdb file (∅ : Data NatScore)).1 = false ∧
      ((loadRdb file (∅ : Data NatScore)).2.find? (str "k")).map RedisValue.strVal = some (str "v") ∧
      ¬ NoTrace file (∅ : Data NatScore) := by
  intro file
  have hfalse : (loadRdb file (∅ : Data NatScore)).1 = false := by decide
  have hentry : ((loadRdb file (∅ : Data NatScore)).2.find? (str "k")).map RedisValue.strVal =
      some (str "v") := by decide
  refine ⟨hfalse, hentry, ?_⟩
  intro h
  rw [h hfalse] at hentry
  cases hentry

/-! ### Truncated files -/

/-- The load succeeds exactly on a header and a row of items, up to the end of the file or the EOF
opcode. -/
theorem loadRdb_true_iff (file : Bytes) (d : Data S) :
    (loadRdb file d).1 = true ↔
      ∃ (version : UInt8) (items : List Item) (rest : Bytes),
        file = rdbMagic ++ version :: (items.flatMap Item.bytes ++ rest) ∧
          (rest = [] ∨ rest.head? = some rdbOpcodeEof) := by
  unfold loadRdb
  constructor
  · intro h
    by_cases hheader : ∃ version body, file = rdbMagic ++ version :: body
    · obtain ⟨version, body, rfl⟩ := hheader
      rw [loadCalls_header] at h
      obtain ⟨items, rest, rfl, hrest, -⟩ := (loadLoop_iff (Nat.le_refl _)).mp (Prod.ext h rfl)
      exact ⟨version, items, rest, rfl, hrest⟩
    · rw [loadCalls_no_header fun version body hfile => hheader ⟨version, body, hfile⟩] at h
      cases h
  · rintro ⟨version, items, rest, rfl, hrest⟩
    rw [loadCalls_header, (loadLoop_iff (Nat.le_refl _)).mpr ⟨items, rest, rfl, hrest, rfl⟩]

theorem selfDelimiting_item : SelfDelimiting Item.bytes := by
  intro item item' r r' h
  have hround := loadRound_item (S := NatScore) item r
  rw [h, loadRound_item] at hround
  exact (Option.some.inj (Prod.mk.inj hround).2).symm

theorem nil_ne_item (item : Item) (t : Bytes) : [] ≠ item.bytes ++ t := by
  intro h
  exact item.bytes_ne_nil (List.append_eq_nil_iff.mp h.symm).1

theorem eof_ne_item (rest : Bytes) (item : Item) (t : Bytes) :
    rdbOpcodeEof :: rest ≠ item.bytes ++ t := by
  intro h
  apply item.head_bytes_ne_eof t
  rw [← h]
  rfl

variable (S) in
/-- A load that succeeds has read the EOF opcode behind a row of items. -/
def EofRead (file : Bytes) : Prop :=
  (loadRdb file (∅ : Data S)).1 = true →
    ∃ (version : UInt8) (items : List Item) (rest : Bytes),
      file = rdbMagic ++ version :: (items.flatMap Item.bytes ++ rdbOpcodeEof :: rest)

theorem eofRead_iff (file : Bytes) :
    EofRead S file ↔
      ¬ ∃ (version : UInt8) (items : List Item),
        file = rdbMagic ++ version :: items.flatMap Item.bytes := by
  constructor
  · rintro h ⟨version, items, rfl⟩
    have hload : (loadRdb (rdbMagic ++ version :: items.flatMap Item.bytes) (∅ : Data S)).1 = true :=
      (loadRdb_true_iff _ _).mpr ⟨version, items, [], by rw [List.append_nil], .inl rfl⟩
    obtain ⟨version', items', rest, hfile⟩ := h hload
    have hrow := (List.cons.inj (List.append_cancel_left hfile)).2
    rw [← List.append_nil (items.flatMap Item.bytes)] at hrow
    cases (selfDelimiting_item.row_eq nil_ne_item (eof_ne_item rest) hrow).2
  · intro h hload
    obtain ⟨version, items, rest, rfl, hrest⟩ := (loadRdb_true_iff _ _).mp hload
    rcases hrest with rfl | hhead
    · exact absurd ⟨version, items, by rw [List.append_nil]⟩ h
    · obtain ⟨rest, rfl⟩ := List.head?_eq_some_iff.mp hhead
      exact ⟨version, items, rest, rfl⟩

/-- The six bytes in front of the first opcode. -/
def fileHeader : Bytes := rdbMagic ++ [rdbVersion]

/-- The reader takes a cut file for a complete one: the header alone, or the header, `FE 00` with the
next byte zero, and a row of items up to the cut or an EOF byte. -/
def PassesAsComplete (file : Bytes) : Prop :=
  file = fileHeader ∨
    ∃ (items : List Item) (rest : Bytes),
      file = fileHeader ++ rdbOpcodeSelectdb :: 0 :: 0 :: (items.flatMap Item.bytes ++ rest) ∧
        (rest = [] ∨ rest.head? = some rdbOpcodeEof)

theorem Payload.eq_selectdb {p : Payload} (h : p.type = rdbOpcodeSelectdb) : p = .selectdb := by
  cases p with
  | selectdb => rfl
  | unknown t ht =>
    replace h : t = rdbOpcodeSelectdb := h
    subst h
    exact absurd (by decide) ht
  | _ => cases h

/-- A string whose encoding starts with a zero byte is the empty one. -/
theorem Encoded.bytes_of_zero {e : Encoded} {r rest : Bytes} (h : e.bytes ++ r = 0 :: rest) :
    e.bytes = [0] := by
  cases e with
  | short s fits =>
    obtain ⟨hlen, -⟩ := List.cons.inj h
    have hzero := congrArg UInt8.toNat hlen
    rw [UInt8.toNat_ofNat', Nat.mod_eq_of_lt (by omega)] at hzero
    obtain rfl := List.eq_nil_of_length_eq_zero hzero
    rfl
  | long flag isFlag s fits =>
    obtain ⟨rfl, -⟩ := List.cons.inj h
    exact absurd isFlag (by decide)

/-- A first item that starts with the two bytes behind the header is `FE 00 00`. -/
theorem Item.bytes_of_selectdb {item : Item} {r rest : Bytes}
    (h : item.bytes ++ r = rdbOpcodeSelectdb :: 0 :: rest) :
    item.bytes = [rdbOpcodeSelectdb, 0, 0] := by
  obtain ⟨stamp, key, payload, valid⟩ := item
  cases stamp with
  | some word => exact absurd (List.cons.inj h).1 (by decide)
  | none =>
    obtain ⟨htype, hkey⟩ := List.cons.inj h
    obtain rfl := Payload.eq_selectdb htype
    replace hkey : (key.bytes ++ [0]) ++ r = 0 :: rest := hkey
    rw [List.append_assoc] at hkey
    show rdbOpcodeSelectdb :: (key.bytes ++ [0]) = _
    rw [Encoded.bytes_of_zero hkey]
    rfl

/-- The item the reader makes of `FE 00 00`. -/
def selectdbItem : Item where
  stamp := none
  key := .short [] (by decide)
  payload := .selectdb
  valid _ := by decide

/-- Which beginnings of a saved file the reader accepts. -/
theorem loadRdb_cut_iff {d : Data S} {cut missing : Bytes} (hcut : cut ++ missing = saveRdb d)
    (d' : Data S) : (loadRdb cut d').1 = true ↔ PassesAsComplete cut := by
  rw [loadRdb_true_iff]
  constructor
  · rintro ⟨version, items, rest, rfl, hrest⟩
    rw [saveRdb, List.append_assoc, List.cons_append] at hcut
    obtain ⟨rfl, hbody⟩ := List.cons.inj (List.append_cancel_left hcut)
    cases items with
    | nil =>
      rcases hrest with rfl | hhead
      · exact .inl rfl
      · obtain ⟨rest, rfl⟩ := List.head?_eq_some_iff.mp hhead
        exact absurd (List.cons.inj hbody).1 (by decide)
    | cons item items =>
      rw [List.flatMap_cons, List.append_assoc, List.append_assoc] at hbody
      refine .inr ⟨items, rest, ?_, hrest⟩
      rw [List.flatMap_cons, Item.bytes_of_selectdb hbody, fileHeader]
      simp
  · rintro (rfl | ⟨items, rest, rfl, hrest⟩)
    · exact ⟨rdbVersion, [], [], rfl, .inl rfl⟩
    · refine ⟨rdbVersion, selectdbItem :: items, rest, ?_, hrest⟩
      rw [List.flatMap_cons, fileHeader]
      simp [selectdbItem, Item.bytes, Item.stampBytes, Encoded.bytes, Payload.bytes, Payload.type]

/-- **Which truncations are noticed.**  A proper beginning of a saved file fails to load unless it
passes as complete; and a load that succeeds has read the EOF opcode unless the file is a header and a
row of items up to its end. -/
theorem truncation_detected_iff :
    (∀ (d d' : Data S) (cut missing : Bytes), cut ++ missing = saveRdb d → missing ≠ [] →
      ((loadRdb cut d').1 = false ↔ ¬ PassesAsComplete cut)) ∧
    ∀ file, EofRead S file ↔
      ¬ ∃ (version : UInt8) (items : List Item),
        file = rdbMagic ++ version :: items.flatMap Item.bytes := by
  refine ⟨?_, eofRead_iff⟩
  intro d d' cut missing hcut _
  rw [← loadRdb_cut_iff hcut d', Bool.not_eq_true]

/-- A cut between `FE 00` and the first record is noticed. -/
theorem truncation_detected_in_selectdb :
    let d : Data NatScore := Database.set (str "k") (str "v") ∅
    let cut := fileHeader ++ [rdbOpcodeSelectdb, 0]
    (∃ missing, missing ≠ [] ∧ cut ++ missing = saveRdb d) ∧ ¬ PassesAsComplete cut := by
  intro d cut
  have hmissing : (d.entries.flatMap saveEntry ++ [rdbOpcodeEof]) ≠ [] := by decide
  refine ⟨⟨_, hmissing, rfl⟩, ?_⟩
  exact (truncation_detected_iff.1 d ∅ cut _ rfl hmissing).mp (by decide)

/-- The header alone loads, as an empty database. -/
theorem truncated_file_loads :
    let d : Data NatScore := Database.set (str "k") (str "v") ∅
    (∃ missing, missing ≠ [] ∧ fileHeader ++ missing = saveRdb d) ∧
      loadRdb fileHeader (∅ : Data NatScore) = (true, ∅) ∧ ¬ EofRead NatScore fileHeader := by
  intro d
  refine ⟨⟨_, ?_, rfl⟩, by decide, ?_⟩
  · decide
  · rw [eofRead_iff, not_not]
    exact ⟨rdbVersion, [], rfl⟩

end MinimalRedis
