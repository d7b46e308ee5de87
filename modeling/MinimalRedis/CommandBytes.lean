import MinimalRedis.Commands
import MinimalRedis.RespIncomplete

/-!
# The parser on the bytes of a command

A command on the wire is an array of bulk strings, which is `arrayReply` read the other way
(`wire_arrayReply`):

* `parse_command` — a whole command at the front of the buffer is read, whatever follows;
* `parse_boundary` — the buffer ends **between elements**: `Incomplete command`;
* `parse_inside` — it ends **inside** the count line or an element: one of the other messages.
-/

namespace MinimalRedis

open Lib

/-- The count line of an array. -/
def countLine (n : ℕ) : Bytes := 42 :: (natBytes n ++ crlf)

theorem arrayReply_eq (items : List Bytes) :
    arrayReply items = countLine items.length ++ items.flatMap bulkReply := by
  simp [arrayReply, countLine, crlf]

theorem wire_bulkReply (s : Bytes) : Wire (.bulkString s) (bulkReply s) :=
  .bulkString (paddedNat_natBytes s.length)

/-- The elements of an array of bulk strings with their bytes. -/
def bulkElems (items : List Bytes) : List (RespValue × Bytes) :=
  items.map fun s => (.bulkString s, bulkReply s)

theorem wire_bulkElems (items : List Bytes) : ∀ e ∈ bulkElems items, Wire e.1 e.2 := by
  intro e he
  obtain ⟨s, -, rfl⟩ := List.mem_map.mp he
  exact wire_bulkReply s

theorem flatten_bulkElems (items : List Bytes) :
    ((bulkElems items).map Prod.snd).flatten = items.flatMap bulkReply := by
  rw [bulkElems, List.map_map, List.flatMap]
  rfl

theorem wire_arrayReply (items : List Bytes) :
    Wire (.array (items.map .bulkString)) (arrayReply items) := by
  have hwire := @Wire.array (bulkElems items) (natBytes items.length)
    (by rw [bulkElems, List.length_map]; exact paddedNat_natBytes _) (wire_bulkElems items)
  rw [flatten_bulkElems] at hwire
  simpa [bulkElems, Function.comp_def, arrayReply] using hwire

/-- No element of an array of bulk strings is an array. -/
theorem widest_bulkStrings (items : List Bytes) :
    (RespValue.array (items.map .bulkString)).widest = items.length := by
  have hflat : RespValue.widestOf (items.map .bulkString) = 0 := by
    induction items with
    | nil => rfl
    | cons s items ih => rw [List.map_cons, RespValue.widestOf, ih]; rfl
  rw [RespValue.widest, hflat, List.length_map, Nat.max_zero]

namespace RespParser

/-! ### Whole and cut commands -/

/-- The bytes stop behind the count line and some but not all elements. -/
def AtElement (cmd : List Bytes) (u : Bytes) : Prop :=
  ∃ done s todo, cmd = done ++ s :: todo ∧ u = countLine cmd.length ++ done.flatMap bulkReply

theorem length_le_flatMap_bulkReply (items : List Bytes) :
    items.length ≤ (items.flatMap bulkReply).length := by
  induction items with
  | nil => exact le_rfl
  | cons s items ih =>
    simp only [List.flatMap_cons, List.length_append, List.length_cons, bulkReply]
    omega

theorem length_le_arrayReply (cmd : List Bytes) : cmd.length ≤ (arrayReply cmd).length := by
  have := length_le_flatMap_bulkReply cmd
  rw [arrayReply_eq, List.length_append]
  omega

section Commands

variable {grants : ℕ} {cmd : List Bytes} (hshort : (arrayReply cmd).length < 2 ^ 59)
  (hgrants : (arrayReply cmd).length ≤ grants)

include hshort hgrants

theorem length_le_vectorMaxSize : cmd.length ≤ grants ∧ cmd.length ≤ vectorMaxSize := by
  have := length_le_arrayReply cmd
  unfold vectorMaxSize
  omega

/-- A whole command is read, whatever follows it in the buffer. -/
theorem parse_command (rest : Bytes) :
    parse grants (arrayReply cmd ++ rest) =
      .ok (.array (cmd.map .bulkString), (arrayReply cmd).length) := by
  obtain ⟨-, hmax⟩ := length_le_vectorMaxSize hshort hgrants
  apply parse_of_wire (wire_arrayReply cmd) _ (by omega) hgrants
  rwa [widest_bulkStrings]

/-- The bytes of a command stop in its element `s`: the error made there is the error of the whole. -/
theorem parse_of_cutElement {done todo : List Bytes} {s u v : Bytes}
    (hcmd : cmd = done ++ s :: todo)
    (hu : u = countLine cmd.length ++ (done.flatMap bulkReply ++ v)) (hlen : u.length < 2 ^ 62)
    (hbuf : u.length ≤ grants) :
    ∃ k q, q + v.length = u.length ∧ u.drop q = v ∧ v.length < k ∧
      ∀ err, parseFrom grants u k q = .error err → parse grants u = .error err := by
  obtain ⟨hn, hmax⟩ := length_le_vectorMaxSize hshort hgrants
  have hsize : (bulkElems done ++ (.bulkString s, bulkReply s) :: bulkElems todo).length =
      cmd.length := by simp [bulkElems, hcmd]
  have hdone : ∀ x ∈ bulkElems done, x.2 ≠ [] ∧ ReadsAs grants x.1 x.2 := by
    intro x hx
    have hwire := wire_bulkElems done x hx
    refine ⟨hwire.ne_nil, readsAs_of_wire hwire ?_⟩
    obtain ⟨s, -, rfl⟩ := List.mem_map.mp hx
    exact Nat.zero_le _
  have hhere : u.drop 0 = 42 :: (natBytes cmd.length ++ (crlf ++
      (((bulkElems done).map Prod.snd).flatten ++ v))) := by
    rw [List.drop_zero, hu, flatten_bulkElems]
    simp [countLine]
  obtain ⟨k, q, hq, hdrop, hk, herr⟩ := parseFrom_of_cutElement
    (show PaddedNat _ (natBytes cmd.length) by rw [hsize]; exact paddedNat_natBytes _)
    (by rwa [hsize]) (by rwa [hsize]) hdone hhere (by omega) (by omega)
    (show u.length < 0 + fuelFor u by unfold fuelFor; omega)
  refine ⟨k, q, ?_, hdrop, hk, herr⟩
  have htotal := congrArg List.length hhere
  simp only [List.drop_zero, List.length_cons, List.length_append, crlf, List.length_nil] at htotal
  omega

/-- The buffer ends between two elements: `Incomplete command`. -/
theorem parse_boundary {u : Bytes} (hlen : u.length < 2 ^ 62) (hbuf : u.length ≤ grants)
    (hu : AtElement cmd u) : parse grants u = .error (.runtimeError .incompleteCommand) := by
  obtain ⟨done, s, todo, hcmd, hu⟩ := hu
  have hcut : u = countLine cmd.length ++ (done.flatMap bulkReply ++ []) := by
    rw [hu, List.append_nil]
  obtain ⟨k, q, -, hdrop, hk, herr⟩ := parse_of_cutElement hshort hgrants hcmd hcut hlen hbuf
  obtain ⟨k, rfl⟩ : ∃ n, k = n + 1 := ⟨k - 1, by omega⟩
  exact herr _ (parseFrom_at_end hdrop k)

/-- The buffer ends anywhere else: another message. -/
theorem parse_inside {u w : Bytes} (hcut : u ++ w = arrayReply cmd) (hne : u ≠ []) (hw : w ≠ [])
    (hu : ¬ AtElement cmd u) :
    ∃ msg, msg ≠ .incompleteCommand ∧ parse grants u = .error (.runtimeError msg) := by
  have hlength : u.length ≤ (arrayReply cmd).length := by
    rw [← hcut, List.length_append]
    omega
  have hwhole : u ++ w = 42 :: (natBytes cmd.length ++ (crlf ++ cmd.flatMap bulkReply)) := by
    simpa [arrayReply] using hcut
  rcases cut_head (by decide) ((paddedNat_natBytes _).not_mem rfl) List.drop_zero hwhole
    (2 * u.length + 1) with hnil | hparse | ⟨t, ht, htw⟩
  · exact absurd hnil hne
  · exact ⟨.incompleteLine, by decide, hparse⟩
  · obtain ⟨done, s, todo, v, v', hcmd, rfl, hv, hv'⟩ := cut_flatMap bulkReply htw hw
    have hcount : u = countLine cmd.length ++ (done.flatMap bulkReply ++ v) := by
      rw [ht]
      simp [countLine]
    have hvne : v ≠ [] := by
      intro hnil
      subst hnil
      exact hu ⟨done, s, todo, hcmd, by simpa using hcount⟩
    have hs : (bulkReply s).length ≤ (arrayReply cmd).length := by
      rw [arrayReply_eq, hcmd]
      simp
      omega
    obtain ⟨k, q, hq, hdrop, hk, herr⟩ := parse_of_cutElement hshort hgrants hcmd hcount
      (by omega) (by omega)
    obtain ⟨k, rfl⟩ : ∃ n, k = n + 1 := ⟨k - 1, by omega⟩
    obtain ⟨msg, hmsg, hparse⟩ := parseFrom_inside (paddedNat_natBytes s.length)
      ⟨hdrop, hv, hv', show q + (bulkReply s).length < 2 ^ 63 by omega,
        show (bulkReply s).length ≤ grants by omega⟩ hvne k
    refine ⟨msg, ?_, herr _ hparse⟩
    rintro rfl
    simp at hmsg

end Commands

end RespParser

end MinimalRedis
