import MinimalRedis.Transactions

/-!
# The server (`main.cpp`)

One thread serves each connection with a processor of its own; the processors are registered in
`client_processors` under their file descriptors, which is how `PUBLISH` reaches them.  The system
hands out only descriptors that are not open, and may hand out a closed one again.  The cleanup of a
connection erases its entry of `client_processors`; **the publish/subscribe registry is not told**.
-/

namespace MinimalRedis

open Lib

variable {S : Type} [Score S] {Λ : Type}

/-- The shared world and the processors of the open connections. -/
structure Server (S Λ : Type) [Score S] where
  world : World S := {}
  processors : UMap ℤ (Processor Λ) := ∅

/-- What happens at the server: a connection is accepted (with the write end of its notification
pipe), ends, or has a whole command processed. -/
inductive ServerEvent where
  | accept (fd notifyWriteFd : ℤ)
  | close (fd : ℤ)
  | command (fd now : ℤ) (command : RespValue)

namespace Server

/-- `handle_client` up to its loop; `boot` is a new Lua state. -/
def register (boot : Λ) (fd notifyWriteFd : ℤ) (srv : Server S Λ) : Server S Λ where
  world :=
    { srv.world with
      clientProcessors := srv.world.clientProcessors.set fd { notifyWriteFd := notifyWriteFd } }
  processors := srv.processors.set fd { clientFd := fd, engine := { state := boot } }

/-- The cleanup of `handle_client`. -/
def cleanup (fd : ℤ) (srv : Server S Λ) : Server S Λ where
  world := { srv.world with clientProcessors := srv.world.clientProcessors.erase fd }
  processors := srv.processors.erase fd

/-- One command of the connection `fd`, whose processor is `p`: the reply and the server after it. -/
def process (env : Env Λ) (fd now : ℤ) (p : Processor Λ) (command : RespValue) (srv : Server S Λ) :
    Bytes × Server S Λ :=
  let x := processCommand env now command ⟨srv.world, p⟩
  (x.1, { world := x.2.world, processors := srv.processors.set fd x.2.self })

/-- The reply (empty where none is sent) and the server after an event, `none` where the event cannot
happen. -/
def step? (env : Env Λ) (boot : Λ) : ServerEvent → Server S Λ → Option (Bytes × Server S Λ)
  | .accept fd notifyWriteFd, srv =>
      if fd < 0 then none
      else
        match srv.processors.find? fd with
        | none => some ([], srv.register boot fd notifyWriteFd)
        | some _ => none
  | .close fd, srv => (srv.processors.find? fd).map fun _ => ([], srv.cleanup fd)
  | .command fd now command, srv =>
      (srv.processors.find? fd).map fun p => srv.process env fd now p command

/-- The server after a history, `none` where the history is impossible. -/
def run? (env : Env Λ) (boot : Λ) : List ServerEvent → Server S Λ → Option (Server S Λ)
  | [], srv => some srv
  | e :: es, srv => (srv.step? env boot e).bind fun x => x.2.run? env boot es

/-- What an event does. -/
theorem step?_cases {env : Env Λ} {boot : Λ} {e : ServerEvent} {srv : Server S Λ}
    {x : Bytes × Server S Λ} (h : srv.step? env boot e = some x) :
    (∃ fd n, e = .accept fd n ∧ 0 ≤ fd ∧ srv.processors.find? fd = none ∧
        x = ([], srv.register boot fd n)) ∨
      (∃ fd p, e = .close fd ∧ srv.processors.find? fd = some p ∧ x = ([], srv.cleanup fd)) ∨
      ∃ fd now command p, e = .command fd now command ∧ srv.processors.find? fd = some p ∧
        x = srv.process env fd now p command := by
  cases e with
  | accept fd n =>
    simp only [step?] at h
    split at h
    · cases h
    · split at h
      · rename_i hfd hnone
        exact .inl ⟨fd, n, rfl, by omega, hnone, (Option.some.inj h).symm⟩
      · cases h
  | close fd =>
    obtain ⟨p, hp, rfl⟩ := Option.map_eq_some_iff.mp h
    exact .inr (.inl ⟨fd, p, rfl, hp, rfl⟩)
  | command fd now command =>
    obtain ⟨p, hp, rfl⟩ := Option.map_eq_some_iff.mp h
    exact .inr (.inr ⟨fd, now, command, p, rfl, hp, rfl⟩)

theorem run?_cons {env : Env Λ} {boot : Λ} {e : ServerEvent} {es : List ServerEvent} {srv srv' : Server S Λ}
    (h : srv.run? env boot (e :: es) = some srv') :
    ∃ x, srv.step? env boot e = some x ∧ x.2.run? env boot es = some srv' :=
  Option.bind_eq_some_iff.mp h

end Server

end MinimalRedis
