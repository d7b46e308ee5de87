import MinimalRedis.RdbContents
import MinimalRedis.RdbWeight

/-!
# Saving and loading

The writer puts `FE 00` in front of the records.  The reader takes a key **before** it looks at the
opcode, so the `00` is read as the empty key, and the first byte of the records as the number of the
database:

* `loadCalls_saveRdb` — the load fails unless that byte is zero, and otherwise the loop goes on
  **behind** it, in the middle of the first record;
* `roundTrips_iff_spells` — so a database comes back only when the bytes from there on happen to be a
  row of items that builds it again;
* `exists_unaccounted` — which needs room that only timestamps and sorted-set scores leave.
-/

namespace MinimalRedis

open Lib

variable {S : Type} [Score S]

/-- Loading what was saved into an empty database succeeds, with the same keys, types and contents. -/
def RoundTrips (d : Data S) : Prop :=
  (loadRdb (saveRdb d) (∅ : Data S)).1 = true ∧
    ∀ key, SameView key d (loadRdb (saveRdb d) (∅ : Data S)).2

/-- The bytes are a row of items, up to the end or the EOF opcode, that write under the keys of `d` and
no others, and build there entries with the types and contents that `d` has. -/
def Spells (bs : Bytes) (d : Data S) : Prop :=
  ∃ (items : List Item) (rest : Bytes), bs = items.flatMap Item.bytes ++ rest ∧
    (rest = [] ∨ rest.head? = some rdbOpcodeEof) ∧
    ∀ key, (d.find? key = none → writesUnder (S := S) key items = []) ∧
      ∀ v, d.find? key = some v →
        writesUnder (S := S) key items ≠ [] ∧ Builds (writesUnder key items) v

/-! ### Behind the header -/

/-- The records start with a byte, at the latest with the EOF opcode. -/
theorem exists_saved_eq_cons (d : Data S) :
    ∃ b bs, d.entries.flatMap saveEntry ++ [rdbOpcodeEof] = b :: bs :=
  List.exists_cons_of_ne_nil (by simp)

/-- `FE` takes `00` as its key and the next byte as the number of the database. -/
theorem loadCalls_saveRdb {d : Data S} {b : UInt8} {bs : Bytes}
    (h : d.entries.flatMap saveEntry ++ [rdbOpcodeEof] = b :: bs) :
    loadCalls (S := S) (saveRdb d) = if b = 0 then loadLoop (bs.length + 2) bs else (false, []) := by
  have hentry : loadEntry (S := S) rdbOpcodeSelectdb (0 :: b :: bs) =
      if b = 0 then ([], some bs) else ([], none) := by
    show (if b ≠ 0 then (([], none) : List (Call S) × Option Bytes) else ([], some bs)) = _
    rw [ite_not]
  have hmagic : readN 5 (saveRdb d) = some (rdbMagic, rdbVersion :: rdbOpcodeSelectdb :: 0 :: b :: bs) := by
    rw [saveRdb, h]
    exact readN_eq_some_iff.mpr ⟨rfl, rfl⟩
  have hloop : loadLoop (S := S) (bs.length + 3) (rdbOpcodeSelectdb :: 0 :: b :: bs) =
      if b = 0 then loadLoop (bs.length + 2) bs else (false, []) := by
    rw [loadLoop, if_neg (by decide), hentry]
    split
    · rename_i hb
      split at hb
      · cases hb
      · rename_i hne
        obtain ⟨rfl, -⟩ := Prod.mk.inj hb
        rw [if_neg hne]
    · rename_i hb
      split at hb
      · rename_i hzero
        obtain ⟨rfl, hbs⟩ := Prod.mk.inj hb
        obtain rfl := Option.some.inj hbs
        rw [if_pos hzero]
        rfl
      · cases hb
  unfold loadCalls
  rw [hmagic]
  exact hloop

theorem roundTrips_iff_spells (d : Data S) :
    RoundTrips d ↔
      ∃ bs, d.entries.flatMap saveEntry ++ [rdbOpcodeEof] = 0 :: bs ∧ Spells bs d := by
  obtain ⟨b, bs, hsaved⟩ := exists_saved_eq_cons d
  unfold RoundTrips loadRdb
  rw [loadCalls_saveRdb hsaved]
  by_cases hb : b = 0
  · subst hb
    rw [if_pos rfl]
    constructor
    · intro h
      obtain ⟨items, rest, hbytes, hrest, hcalls⟩ :=
        (loadLoop_iff (Nat.le_add_right _ 2)).mp (Prod.ext h.1 rfl)
      refine ⟨bs, hsaved, items, rest, hbytes, hrest, fun key => ?_⟩
      rw [← sameView_run_items_iff, hcalls]
      exact h.2 key
    · intro h
      obtain ⟨bs', hsaved', items, rest, hbytes, hrest, hview⟩ := h
      obtain rfl : bs = bs' := (List.cons.inj (hsaved.symm.trans hsaved')).2
      rw [(loadLoop_iff (Nat.le_add_right _ 2)).mpr ⟨items, rest, hbytes, hrest, rfl⟩]
      exact ⟨rfl, fun key => (sameView_run_items_iff items d key).mpr (hview key)⟩
  · rw [if_neg hb]
    constructor
    · intro h
      cases h.1
    · intro h
      obtain ⟨bs', hsaved', -⟩ := h
      exact absurd (List.cons.inj (hsaved.symm.trans hsaved')).1 hb

/-! ### The first record -/

theorem saveEntry_of_plain_string {key : Bytes} {v : RedisValue S} (htype : v.type = .string)
    (hexpiry : v.expiryTime ≤ 0) :
    saveEntry (key, v) = 0 :: (writeLengthEncoded key ++ writeLengthEncoded v.strVal) := by
  show saveExpiry v ++ saveRecord key v = _
  rw [saveExpiry, if_neg (not_lt.mpr hexpiry), List.nil_append, saveRecord, htype]
  rfl

theorem saveEntry_of_not_plain_string (key : Bytes) {v : RedisValue S}
    (h : ¬ (v.type = .string ∧ v.expiryTime ≤ 0)) : ∃ b bs, saveEntry (key, v) = b :: bs ∧ b ≠ 0 := by
  show ∃ b bs, saveExpiry v ++ saveRecord key v = b :: bs ∧ b ≠ 0
  unfold saveExpiry
  split
  · exact ⟨_, _, rfl, by decide⟩
  · rename_i hexpiry
    unfold saveRecord
    cases htype : v.type with
    | string => exact absurd ⟨htype, not_lt.mp hexpiry⟩ h
    | list => exact ⟨_, _, rfl, by decide⟩
    | set => exact ⟨_, _, rfl, by decide⟩
    | hash => exact ⟨_, _, rfl, by decide⟩
    | zset => exact ⟨_, _, rfl, by decide⟩

/-- The records start with a zero byte exactly when the first one is a string without a timestamp. -/
theorem saved_eq_zero_cons_iff {d : Data S} {bs : Bytes} :
    d.entries.flatMap saveEntry ++ [rdbOpcodeEof] = 0 :: bs ↔
      ∃ key v more, d.entries = (key, v) :: more ∧ v.type = .string ∧ v.expiryTime ≤ 0 ∧
        bs = writeLengthEncoded key ++ (writeLengthEncoded v.strVal ++
          (more.flatMap saveEntry ++ [rdbOpcodeEof])) := by
  constructor
  · intro h
    cases hd : d.entries with
    | nil =>
      rw [hd] at h
      exact absurd (List.cons.inj h).1 (by decide)
    | cons e more =>
      obtain ⟨key, v⟩ := e
      rw [hd, List.flatMap_cons] at h
      by_cases hplain : v.type = .string ∧ v.expiryTime ≤ 0
      · rw [saveEntry_of_plain_string hplain.1 hplain.2] at h
        refine ⟨key, v, more, rfl, hplain.1, hplain.2, ?_⟩
        simpa using h.symm
      · obtain ⟨b, bs', hentry, hb⟩ := saveEntry_of_not_plain_string key hplain
        rw [hentry] at h
        exact absurd (List.cons.inj h).1 hb
  · intro h
    obtain ⟨key, v, more, hd, htype, hexpiry, rfl⟩ := h
    rw [hd, List.flatMap_cons, saveEntry_of_plain_string htype hexpiry]
    simp

/-- What is left behind the swallowed byte is too light to build the database again, unless some of
its bytes are not accounted for. -/
theorem exists_unaccounted {d : Data S} (hd : ∀ e ∈ d.entries, Storable e.1 e.2) {bs : Bytes}
    (hsaved : d.entries.flatMap saveEntry ++ [rdbOpcodeEof] = 0 :: bs) (h : Spells bs d) :
    ∃ e ∈ d.entries, e.2.expiryTime > 0 ∨ e.2.type = .zset := by
  by_contra hnone
  push Not at hnone
  obtain ⟨items, rest, hbytes, -, hview⟩ := h
  have hplain : ∀ e ∈ d.entries, ¬ (e.2.expiryTime > 0 ∨ e.2.type = .zset) := by
    intro e he
    obtain ⟨hexpiry, hzset⟩ := hnone e he
    exact not_or.mpr ⟨not_lt.mpr hexpiry, hzset⟩
  have hspent := weightOf_saved_le hd hplain fun key =>
    (sameView_run_items_iff items d key).mpr (hview key)
  have hbuilt := potential_run_items items (∅ : Data S)
  have hempty : potential (∅ : Data S) = 0 := rfl
  have hrest : weightOf bs = weightOf (items.flatMap Item.bytes) + weightOf rest := by
    rw [hbytes, weightOf_append]
  -- the swallowed zero weighs five, the EOF byte only four
  have hall : weightOf (d.entries.flatMap saveEntry) + 4 = 5 + weightOf bs := by
    have := congrArg weightOf hsaved
    rw [weightOf_append, weightOf_cons] at this
    exact this
  omega

/-- **When a saved database is loaded back.**  Never without a timestamp or a sorted set, and never
when the first entry written is anything but a string without a timestamp; otherwise exactly when
the bytes behind the type byte of that first record are themselves a row of items that builds the
same contents. -/
theorem rdb_round_trip_iff (d : Data S) (hd : ∀ e ∈ d.entries, Storable e.1 e.2) :
    RoundTrips d ↔
      (∃ e ∈ d.entries, e.2.expiryTime > 0 ∨ e.2.type = .zset) ∧
      ∃ key v more, d.entries = (key, v) :: more ∧ v.type = .string ∧ v.expiryTime ≤ 0 ∧
        Spells (writeLengthEncoded key ++ (writeLengthEncoded v.strVal ++
          (more.flatMap saveEntry ++ [rdbOpcodeEof]))) d := by
  rw [roundTrips_iff_spells]
  constructor
  · intro h
    obtain ⟨bs, hsaved, hspells⟩ := h
    refine ⟨exists_unaccounted hd hsaved hspells, ?_⟩
    obtain ⟨key, v, more, hentries, htype, hexpiry, rfl⟩ := saved_eq_zero_cons_iff.mp hsaved
    exact ⟨key, v, more, hentries, htype, hexpiry, hspells⟩
  · intro h
    obtain ⟨-, key, v, more, hentries, htype, hexpiry, hspells⟩ := h
    exact ⟨_, saved_eq_zero_cons_iff.mpr ⟨key, v, more, hentries, htype, hexpiry, rfl⟩, hspells⟩

/-- One string: its type byte is taken for the database, the length of its key for a list record, and
the load fails. -/
theorem rdb_loses_one_string :
    let d : Data NatScore := Database.set (str "k") (str "v") ∅
    (∀ e ∈ d.entries, Storable e.1 e.2) ∧ (loadRdb (saveRdb d) (∅ : Data NatScore)).1 = false ∧
      ¬ RoundTrips d := by
  intro d
  have hfalse : (loadRdb (saveRdb d) (∅ : Data NatScore)).1 = false := by decide
  refine ⟨by decide, hfalse, ?_⟩
  intro h
  have htrue := h.1
  rw [hfalse] at htrue
  cases htrue

/-- A database that comes back by coincidence: the first record is skipped as one of unknown type, and
the timestamp of the second one spells it again. -/
def coincidence : Data NatScore where
  entries := [(6 :: str "abcd", {}),
    (str "z", { strVal := str "w", expiryTime := 28256771856794880 })]
  nodup := by decide

theorem rdb_round_trip_coincidence :
    (∀ e ∈ coincidence.entries, Storable e.1 e.2) ∧ RoundTrips coincidence ∧
      ∃ e ∈ coincidence.entries, e.2.expiryTime > 0 ∨ e.2.type = .zset := by
  have hstorable : ∀ e ∈ coincidence.entries, Storable e.1 e.2 := by decide
  have hload : loadRdb (saveRdb coincidence) (∅ : Data NatScore) =
      (true, ⟨[(6 :: str "abcd", {}), (str "z", { strVal := str "w" })], by decide⟩) := by
    decide
  have hround : RoundTrips coincidence := by
    unfold RoundTrips
    rw [hload]
    refine ⟨rfl, fun key => ?_⟩
    simp only [SameView, UMap.find?, coincidence, lookupList]
    split_ifs
    · exact ⟨rfl, rfl⟩
    · exact ⟨rfl, rfl⟩
    · trivial
  exact ⟨hstorable, hround, ((rdb_round_trip_iff coincidence hstorable).mp hround).1⟩

end MinimalRedis
