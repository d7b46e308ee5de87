import MinimalRedis.RdbExpiry
import MinimalRedis.RdbWeight
import MinimalRedis.ZsetRank

/-!
# One record there and back

`save_rdb` as a whole is not undone by `load_rdb`: the reader stumbles over the header.  Record by
record the two loops do fit together.

* `foldl_zaddOne_sorted` — adding the pairs of a sorted set in the order of its score index builds the
  same index again, ties included;
* `samePayload_restored` — what the reader writes for a value under a fresh key has its contents;
* `rdb_record_round_trip` — **one round of the reader on what one round of the writer wrote** takes
  exactly these bytes and leaves the type and the contents.
-/

namespace MinimalRedis

open Lib

variable {S : Type} [Score S]

/-! ### A sorted set added in its own order -/

/-- New members whose scores are no smaller than any present and come in order are lined up behind
the members present. -/
theorem foldl_zaddOne_sorted (ps : List (S × Bytes)) {v : RedisValue S}
    (hsorted : (v.zsetScoreToMember.entries ++ ps).Pairwise fun a b => a.1 ≤ b.1)
    (honce : (ps.map Prod.snd).Nodup)
    (hnew : ∀ p ∈ ps, v.zsetMemberToScore.find? p.2 = none) :
    (ps.foldl Database.zaddOne v).zsetScoreToMember.entries =
      v.zsetScoreToMember.entries ++ ps := by
  induction ps generalizing v with
  | nil => rw [List.foldl_nil, List.append_nil]
  | cons p ps ih =>
    obtain ⟨hp, honce⟩ := List.nodup_cons.mp (by simpa only [List.map_cons] using honce)
    obtain ⟨hpnew, hnew⟩ := List.forall_mem_cons.mp hnew
    have hbelow : ∀ q ∈ v.zsetScoreToMember.entries, q.1 ≤ p.1 := by
      intro q hq
      exact (List.pairwise_append.mp hsorted).2.2 q hq p List.mem_cons_self
    have hstep : (Database.zaddOne v p).zsetScoreToMember.entries =
        v.zsetScoreToMember.entries ++ [p] := by
      simp only [Database.zaddOne, hpnew, Multimap.insert]
      exact insertUpper_of_forall_le hbelow
    have hlater : ∀ q ∈ ps, (Database.zaddOne v p).zsetMemberToScore.find? q.2 = none := by
      intro q hq
      have hne : q.2 ≠ p.2 := by
        intro heq
        exact hp (heq ▸ List.mem_map_of_mem hq)
      show (v.zsetMemberToScore.set p.2 p.1).find? q.2 = none
      rw [UMap.find?_set_ne _ _ hne]
      exact hnew q hq
    rw [List.foldl_cons, ih _ honce hlater, hstep, List.append_assoc, List.singleton_append]
    rw [hstep, List.append_assoc, List.singleton_append]
    exact hsorted

/-! ### The contents afterwards -/

theorem map_stored {l : List Bytes} (h : ∀ x ∈ l, x.length < 2 ^ 32) : l.map stored = l := by
  rw [List.map_congr_left (fun x hx => stored_eq_self_iff.mpr (h x hx)), List.map_id']

/-- The loops of the reader can hold a storable value: its count is written in full. -/
theorem Storable.rebuilt {key : Bytes} {v : RedisValue S} (h : Storable key v)
    (hagree : v.type = .zset → v.IndexesAgree) : Rebuilt v := by
  obtain ⟨-, h⟩ := h
  rw [Rebuilt]
  cases htype : v.type with
  | string => trivial
  | list =>
    rw [htype] at h
    exact ⟨List.ne_nil_of_length_pos h.1, h.2.1⟩
  | set =>
    rw [htype] at h
    exact h.2.1
  | zset =>
    rw [htype] at h
    show v.zsetMemberToScore.size % 2 ^ 32 = v.zsetScoreToMember.size
    rw [Nat.mod_eq_of_lt h.2.1, (hagree htype).sizes]
  | hash =>
    rw [htype] at h
    refine ⟨?_, h.2.1⟩
    intro hempty
    rw [hempty] at h
    exact absurd h.1 (by decide)

/-- Writes of one type, at least one of them, leave that type. -/
theorem type_foldl_apply_of_forall {ws : List (Write S)} {type : RedisType} (hne : ws ≠ [])
    (h : ∀ w ∈ ws, w.type? = some type) (v : RedisValue S) :
    (ws.foldl Write.apply v).type = type := by
  have hlast : (ws.getLast hne).type? = some type := h _ (List.getLast_mem hne)
  rw [type_foldl_apply, ← List.dropLast_append_getLast hne, List.filterMap_append,
    List.filterMap_cons_some hlast, List.filterMap_nil, List.getLastD_concat]

theorem type_restored (e : ℤ) {v : RedisValue S} (h : Rebuilt v) :
    ((restoredWrites e v).foldl Write.apply default).type = v.type := by
  have hne := restoredWrites_ne_nil e h
  rw [restoredWrites] at hne ⊢
  cases htype : v.type with
  | string =>
    -- a timestamp behind the string has no type of its own
    rw [type_foldl_apply]
    by_cases he : e > 0
    · rw [if_pos he]
      rfl
    · rw [if_neg he]
      rfl
  | list =>
    rw [htype] at hne
    apply type_foldl_apply_of_forall hne
    exact List.forall_mem_map.mpr fun _ _ => rfl
  | hash =>
    rw [htype] at hne
    apply type_foldl_apply_of_forall hne
    exact List.forall_mem_map.mpr fun _ _ => rfl
  | set => exact type_foldl_apply_of_forall (List.cons_ne_nil _ _) (by simp [Write.type?]) default
  | zset => exact type_foldl_apply_of_forall (List.cons_ne_nil _ _) (by simp [Write.type?]) default

/-- The pairs of the score index, added under a fresh key, are both indexes again. -/
theorem samePayload_readded {v : RedisValue S} (hagree : v.IndexesAgree) :
    SamePayload .zset v (v.zsetScoreToMember.entries.foldl Database.zaddOne default) := by
  refine ⟨Multimap.ext ?_, fun m => ?_⟩
  · exact (foldl_zaddOne_sorted (v := default) v.zsetScoreToMember.entries
      v.zsetScoreToMember.sorted hagree.membersOnce fun _ _ => rfl).symm
  · rw [Database.zsetMemberToScore_foldl_zaddOne]
    refine (UMap.find?_setMany_empty ?_ m).symm
    have hperm := hagree.map Prod.swap
    rwa [List.map_map, Prod.swap_swap_eq, List.map_id] at hperm

theorem samePayload_restored (e : ℤ) {key : Bytes} {v : RedisValue S} (h : Storable key v)
    (hagree : v.type = .zset → v.IndexesAgree) :
    SamePayload v.type v ((restoredWrites e v).foldl Write.apply default) := by
  obtain ⟨-, h⟩ := h
  rw [restoredWrites]
  cases htype : v.type with
  | string =>
    rw [htype] at h
    have hstored : stored v.strVal = v.strVal := stored_eq_self_iff.mpr h
    show v.strVal = _
    rw [strVal_foldl_apply]
    show v.strVal = (List.filterMap Write.string? (Write.string (stored v.strVal) :: _)).getLastD _
    split
    · exact hstored.symm
    · exact hstored.symm
  | list =>
    rw [htype] at h
    show v.listVal = _
    rw [listVal_foldl_apply, List.filterMap_map]
    show v.listVal = [] ++ List.filterMap (fun x => some (stored x)) v.listVal
    rw [List.filterMap_eq_map', List.nil_append, map_stored h.2.2]
  | set =>
    rw [htype] at h
    intro m
    show v.setVal.find? m = UMap.find? (RedisValue.setVal _) m
    rw [setVal_foldl_apply, List.flatMap_singleton]
    show _ = (USet.insertMany ∅ (v.setVal.keys.map stored)).find? m
    rw [map_stored h.2.2, USet.insertMany_eq_setMany]
    refine (UMap.find?_setMany_empty (List.Perm.of_eq ?_) m).symm
    rw [UMap.keys, List.map_map]
    exact List.map_id' _
  | zset =>
    rw [htype] at h
    have hagree := hagree htype
    have hmembers : v.zsetScoreToMember.entries.map (fun p => (p.1, stored p.2)) =
        v.zsetScoreToMember.entries := by
      refine (List.map_congr_left fun p hp => ?_).trans (List.map_id' _)
      have hmem : p.2 ∈ v.zsetMemberToScore.keys :=
        hagree.walk_perm_keys.mem_iff.mp (List.mem_map_of_mem hp)
      rw [stored_eq_self_iff.mpr (h.2.2 p.2 hmem)]
    have hzset := zsetOf_foldl_apply [Write.scored v.zsetScoreToMember.entries] default
    rw [List.flatMap_singleton] at hzset
    obtain ⟨hscore, hmember⟩ := Prod.mk.inj hzset
    rw [hmembers]
    show _ = RedisValue.zsetScoreToMember _ ∧ ∀ m, _ = (RedisValue.zsetMemberToScore _).find? m
    rw [hscore, hmember]
    exact samePayload_readded hagree
  | hash =>
    rw [htype] at h
    intro f
    show v.hashVal.find? f = UMap.find? (RedisValue.hashVal _) f
    rw [hashVal_foldl_apply, List.filterMap_map]
    show _ = ((∅ : UMap Bytes Bytes).setMany
      (v.hashVal.entries.filterMap fun kv => some (stored kv.1, stored kv.2))).find? f
    rw [List.filterMap_eq_map']
    refine (UMap.find?_setMany_empty (List.Perm.of_eq ?_) f).symm
    refine (List.map_congr_left fun kv hkv => ?_).trans (List.map_id' _)
    obtain ⟨hname, hvalue⟩ := h.2.2 kv hkv
    rw [stored_eq_self_iff.mpr hname, stored_eq_self_iff.mpr hvalue]

/-! ### One round -/

/-- The value under a fresh key after the writes of a payload. -/
theorem find?_run_payload {key : Bytes} {d : Data S} (hd : d.find? key = none) {e : ℤ} {p : Payload}
    (hne : p.writes (S := S) e ≠ []) :
    (Call.run (p.calls key e) d).find? key = some ((p.writes e).foldl Write.apply default) := by
  rw [run_payload_calls, find?_applyWrites, writesAt_map, if_pos rfl, if_neg hne, hd,
    Option.getD_none]

/-- What the writer puts first is not the end of the file, so the reader's loop makes a round of it. -/
theorem loadLoop_saveEntry {key : Bytes} {v : RedisValue S} {rest rest' : Bytes}
    {calls : List (Call S)} (h : loadRound (saveEntry (key, v) ++ rest) = (calls, some rest'))
    (fuel : ℕ) :
    loadLoop (fuel + 1) (saveEntry (key, v) ++ rest) =
      ((loadLoop (S := S) fuel rest').1, calls ++ (loadLoop fuel rest').2) := by
  have hfirst : ∃ opcode bs, saveEntry (key, v) ++ rest = opcode :: bs ∧ opcode ≠ rdbOpcodeEof := by
    show ∃ opcode bs, (saveExpiry v ++ saveRecord key v) ++ rest = opcode :: bs ∧ _
    rw [saveExpiry, saveRecord_eq]
    split
    · exact ⟨_, _, rfl, by decide⟩
    · refine ⟨_, _, rfl, ?_⟩
      cases v.type <;> decide
  obtain ⟨opcode, bs, hbytes, hopcode⟩ := hfirst
  rw [hbytes] at h ⊢
  replace h : loadEntry opcode bs = (calls, some rest') := h
  rw [loadLoop, if_neg hopcode, h]

/-- **Records come back.**  One round of the reader on what one round of the writer wrote, in front of
any bytes: the round takes exactly what was written, so that the loop goes on at the byte behind it,
and a key that was missing then holds the type and the contents, a list in its order and a sorted set
with both indexes, equal scores in the order they had. -/
theorem rdb_record_round_trip {key : Bytes} {v : RedisValue S} (hv : Storable key v)
    (hagree : v.type = .zset → v.IndexesAgree) {d : Data S} (hd : d.find? key = none)
    (rest : Bytes) :
    ∃ calls : List (Call S), loadRound (saveEntry (key, v) ++ rest) = (calls, some rest) ∧
      (∀ fuel, loadLoop (fuel + 1) (saveEntry (key, v) ++ rest) =
        ((loadLoop (S := S) fuel rest).1, calls ++ (loadLoop fuel rest).2)) ∧
      ∃ w, (Call.run calls d).find? key = some w ∧ w.type = v.type ∧ SamePayload v.type v w := by
  have hrebuilt := hv.rebuilt hagree
  obtain ⟨p, hp, hbytes, hwrites⟩ := exists_payload_of_rebuilt (carriedExpiry v) hrebuilt
  have hround : loadRound (S := S) (saveEntry (key, v) ++ rest) =
      (p.calls key (carriedExpiry v), some rest) := by
    rw [loadRound_saveEntry, stored_eq_self_iff.mpr hv.1, hbytes]
    exact loadRecord_eq_some_iff.mpr ⟨p, hp, rfl, rfl⟩
  refine ⟨_, hround, loadLoop_saveEntry hround, _, find?_run_payload hd ?_, ?_, ?_⟩
  · rw [hwrites]
    exact restoredWrites_ne_nil _ hrebuilt
  · rw [hwrites]
    exact type_restored _ hrebuilt
  · rw [hwrites]
    exact samePayload_restored _ hv hagree

/-- Two members with one score, added out of the order of their names. -/
theorem rdb_record_of_ties :
    let v : RedisValue NatScore :=
      [(1, str "b"), (1, str "a")].foldl Database.zaddOne { type := .zset }
    (Storable (str "k") v ∧ v.IndexesAgree) ∧
      ∃ calls, loadRound (saveEntry (str "k", v) ++ [rdbOpcodeEof]) = (calls, some [rdbOpcodeEof]) ∧
        ∃ w, (Call.run calls ∅).find? (str "k") = some w ∧ w.type = .zset ∧
          SamePayload .zset v w := by
  intro v
  have hagree : v.IndexesAgree := Database.foldl_zaddOne_indexesAgree _ (List.Perm.refl _)
  have hv : Storable (str "k") v := by decide
  obtain ⟨calls, hround, -, hfind⟩ :=
    rdb_record_round_trip hv (fun _ => hagree) (UMap.find?_empty _) [rdbOpcodeEof]
  exact ⟨⟨hv, hagree⟩, calls, hround, hfind⟩

end MinimalRedis
