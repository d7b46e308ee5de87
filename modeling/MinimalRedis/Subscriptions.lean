import MinimalRedis.ErrorReplies
import MinimalRedis.Server

/-!
# Subscriptions over whole histories

`Subscribed fd channel history` reads off a history of the server whether the client on `fd`, since
its connection was opened, subscribed to the channel and has not unsubscribed from it.  The registry
knows descriptors only, and keeps one entry for each time a descriptor subscribed:

* `publish_reaches_subscribers` — while no connection is given a descriptor that the registry still
  lists, a message is queued to subscribed clients only;
* `publish_leaks_to_reused_descriptor` — a client that left without unsubscribing has its messages
  delivered to the next one on its descriptor;
* `publish_once` — while clients stay and subscribe only to channels that are new to them, every
  subscribed client gets one copy and the reply counts them;
* `publish_twice` — a repeated subscription is served twice.
-/

namespace MinimalRedis

open Lib

/-! ### The registry -/

namespace PubSubManager

theorem getSubscribers_unsubscribe (fd : ℤ) (channel channel' : Bytes) (r : PubSubManager) :
    (r.unsubscribe fd channel).getSubscribers channel' =
      if channel' = channel then (r.getSubscribers channel').filter (· ≠ fd)
      else r.getSubscribers channel' := by
  by_cases hc : channel' = channel
  · subst hc
    rw [if_pos rfl]
    unfold unsubscribe getSubscribers
    simp only
    split
    · rename_i hnil
      rw [UMap.find?_erase_self, Option.getD_none]
      exact hnil.symm
    · rw [UMap.find?_set_self, Option.getD_some]
  · rw [if_neg hc]
    unfold getSubscribers
    rw [find?_unsubscribe_ne fd hc]

/-- All entries of the client go at once. -/
theorem count_foldl_unsubscribe (fd fd' : ℤ) (channels : List Bytes) (channel : Bytes)
    (r : PubSubManager) :
    ((channels.foldl (fun r c => r.unsubscribe fd c) r).getSubscribers channel).count fd' =
      if fd' = fd ∧ channel ∈ channels then 0 else (r.getSubscribers channel).count fd' := by
  induction channels generalizing r with
  | nil => simp
  | cons c channels ih =>
    rw [List.foldl_cons, ih, getSubscribers_unsubscribe]
    by_cases hc : channel = c
    · by_cases hfd : fd' = fd
      · simp [hc, hfd, List.count_eq_zero]
      · simp [hc, hfd, List.count_filter]
    · simp [hc]

end PubSubManager

/-! ### Mailboxes -/

theorem find?_deliver (message : Bytes) (subscribers : List ℤ) (processors : UMap ℤ Mailbox)
    (fd : ℤ) :
    (deliver message subscribers processors).find? fd =
      (processors.find? fd).map (Mailbox.queuePubsubMessage message)^[subscribers.count fd] := by
  induction subscribers generalizing processors with
  | nil => simp [deliver]
  | cons fd' subscribers ih =>
    cases hmailbox : processors.find? fd' with
    | none =>
      have hskip : deliver message (fd' :: subscribers) processors =
          deliver message subscribers processors := by simp [deliver, hmailbox]
      rw [hskip, ih, List.count_cons]
      by_cases hfd : fd' = fd
      · simp [← hfd, hmailbox]
      · simp [hfd]
    | some mailbox =>
      have hqueue : deliver message (fd' :: subscribers) processors = deliver message subscribers
          (processors.set fd' (mailbox.queuePubsubMessage message)) := by simp [deliver, hmailbox]
      rw [hqueue, ih, List.count_cons]
      by_cases hfd : fd' = fd
      · simp [← hfd, hmailbox]
      · simp [hfd, UMap.find?_set_ne _ _ (Ne.symm hfd)]

theorem pubsubMessages_iterate (message : Bytes) (n : ℕ) (mailbox : Mailbox) :
    ((Mailbox.queuePubsubMessage message)^[n] mailbox).pubsubMessages =
      mailbox.pubsubMessages ++ List.replicate n message := by
  induction n generalizing mailbox with
  | zero => simp
  | succ n ih =>
    rw [Function.iterate_succ_apply, ih, List.replicate_succ]
    simp [Mailbox.queuePubsubMessage]

/-! ### Histories -/

/-- The channels a command names before its first argument of another type. -/
def RespValue.channels (command : RespValue) : List Bytes := leadingBulk command.args.tail

namespace ServerEvent

/-- Whether the client on `fd` is subscribed to the channel after an event, given whether it was
before: a connection begins and ends without subscriptions, and only its own commands change them. -/
def subscribed (fd : ℤ) (channel : Bytes) (was : Bool) : ServerEvent → Bool
  | .accept fd' _ => if fd' = fd then false else was
  | .close fd' => if fd' = fd then false else was
  | .command fd' _ value =>
      if fd' = fd then
        match value.command? with
        | some .subscribe => was || decide (channel ∈ value.channels)
        | some .unsubscribe => was && decide (channel ∉ value.channels)
        | _ => was
      else was

/-- The number of times the registry lists `fd` for the channel after an event. -/
def entries (fd : ℤ) (channel : Bytes) (n : ℕ) : ServerEvent → ℕ
  | .accept _ _ => n
  | .close _ => n
  | .command fd' _ value =>
      if fd' = fd then
        match value.command? with
        | some .subscribe => n + value.channels.count channel
        | some .unsubscribe => if channel ∈ value.channels then 0 else n
        | _ => n
      else n

/-- Whether the connection `fd` is open after an event. -/
def connected (fd : ℤ) (was : Bool) : ServerEvent → Bool
  | .accept fd' _ => was || decide (fd' = fd)
  | .close fd' => was && decide (fd' ≠ fd)
  | .command _ _ _ => was

/-- A client leaves. -/
def isClose : ServerEvent → Bool
  | .close _ => true
  | _ => false

/-- No other commands than the three of publish/subscribe. -/
def OnlyPubSub : ServerEvent → Prop
  | .command _ _ value => value.command? = some .subscribe ∨
      value.command? = some .unsubscribe ∨ value.command? = some .publish
  | _ => True

instance : (e : ServerEvent) → Decidable e.OnlyPubSub
  | .accept _ _ => .isTrue trivial
  | .close _ => .isTrue trivial
  | .command _ _ value => inferInstanceAs (Decidable (value.command? = some .subscribe ∨
      value.command? = some .unsubscribe ∨ value.command? = some .publish))

end ServerEvent

/-- Since its connection was opened the client on `fd` has subscribed to the channel, and has not
unsubscribed from it since. -/
def Subscribed (fd : ℤ) (channel : Bytes) (history : List ServerEvent) : Prop :=
  history.foldl (ServerEvent.subscribed fd channel) false = true

instance (fd : ℤ) (channel : Bytes) (history : List ServerEvent) :
    Decidable (Subscribed fd channel history) := inferInstanceAs (Decidable (_ = true))

variable {S : Type} [Score S] {Λ : Type}

namespace Server

/-- Registered processors are those of the open connections, and none is in a transaction. -/
structure Settled (srv : Server S Λ) : Prop where
  registered : ∀ fd, (srv.world.clientProcessors.find? fd).isSome = (srv.processors.find? fd).isSome
  own : ∀ fd p, srv.processors.find? fd = some p →
    p.clientFd = fd ∧ p.inTransaction = false ∧ p.hasClientProcessors = true

end Server

section Commands

variable {now : ℤ} {command : RespValue} {s : Session S Λ}

theorem processCommand_subscribe (env : Env Λ) (h : command.command? = some .subscribe)
    (hopen : s.self.inTransaction = false) :
    (processCommand env now command s).2 = s.setPubsub
      (command.channels.foldl (fun r c => r.subscribe s.self.clientFd c) s.world.pubsub) := by
  rw [processCommand_direct env now h rfl (.inl hopen)]
  show (handleSubscribe command.args s).2 = _
  unfold handleSubscribe RespValue.channels
  split
  · rename_i hargs
    have htail : command.args.tail = [] := by
      rw [← List.length_eq_zero_iff, List.length_tail]
      omega
    rw [htail]
    rfl
  · rw [channelLoop_eq]

theorem processCommand_unsubscribe (env : Env Λ) (h : command.command? = some .unsubscribe)
    (hopen : s.self.inTransaction = false) :
    (processCommand env now command s).2 = s.setPubsub
      (command.channels.foldl (fun r c => r.unsubscribe s.self.clientFd c) s.world.pubsub) := by
  rw [processCommand_direct env now h rfl (.inl hopen)]
  show (handleUnsubscribe command.args s).2 = _
  unfold handleUnsubscribe RespValue.channels
  split
  · rename_i hargs
    have htail : command.args.tail = [] := by
      rw [← List.length_eq_zero_iff, List.length_tail, hargs]
    rw [htail]
    rfl
  · rw [channelLoop_eq]

/-- `PUBLISH` leaves everything but the mailboxes, and opens or closes none. -/
theorem processCommand_publish (env : Env Λ) (h : command.command? = some .publish)
    (hopen : s.self.inTransaction = false) :
    (processCommand env now command s).2.self = s.self ∧
      (processCommand env now command s).2.world.pubsub = s.world.pubsub ∧
      ∀ fd, ((processCommand env now command s).2.world.clientProcessors.find? fd).isSome =
        (s.world.clientProcessors.find? fd).isSome := by
  rw [processCommand_direct env now h rfl (.inl hopen)]
  show (handlePublish command.args s).2.self = _ ∧ (handlePublish command.args s).2.world.pubsub = _ ∧
    ∀ fd, ((handlePublish command.args s).2.world.clientProcessors.find? fd).isSome = _
  unfold handlePublish
  split
  · split
    · refine ⟨rfl, rfl, fun fd => ?_⟩
      simp only
      split
      · rw [find?_deliver, Option.isSome_map]
      · rfl
    · exact ⟨rfl, rfl, fun _ => rfl⟩
  · exact ⟨rfl, rfl, fun _ => rfl⟩

end Commands

namespace Server

variable {env : Env Λ} {boot : Λ} {e : ServerEvent} {srv : Server S Λ} {x : Bytes × Server S Λ}

theorem settled_register (h : srv.Settled) (boot : Λ) (fd n : ℤ) :
    (srv.register boot fd n).Settled := by
  refine ⟨fun fd' => ?_, fun fd' p' hp' => ?_⟩
  · show ((srv.world.clientProcessors.set fd _).find? fd').isSome =
      ((srv.processors.set fd _).find? fd').isSome
    by_cases hfd : fd' = fd
    · rw [hfd, UMap.find?_set_self, UMap.find?_set_self]
      rfl
    · rw [UMap.find?_set_ne _ _ hfd, UMap.find?_set_ne _ _ hfd]
      exact h.registered fd'
  · replace hp' : (srv.processors.set fd _).find? fd' = some p' := hp'
    by_cases hfd : fd' = fd
    · rw [hfd, UMap.find?_set_self] at hp'
      rw [← Option.some.inj hp', hfd]
      exact ⟨rfl, rfl, rfl⟩
    · rw [UMap.find?_set_ne _ _ hfd] at hp'
      exact h.own fd' p' hp'

theorem settled_cleanup (h : srv.Settled) (fd : ℤ) : (srv.cleanup fd).Settled := by
  refine ⟨fun fd' => ?_, fun fd' p' hp' => ?_⟩
  · show ((srv.world.clientProcessors.erase fd).find? fd').isSome =
      ((srv.processors.erase fd).find? fd').isSome
    by_cases hfd : fd' = fd
    · rw [hfd, UMap.find?_erase_self, UMap.find?_erase_self]
      rfl
    · rw [UMap.find?_erase_ne _ hfd, UMap.find?_erase_ne _ hfd]
      exact h.registered fd'
  · replace hp' : (srv.processors.erase fd).find? fd' = some p' := hp'
    by_cases hfd : fd' = fd
    · rw [hfd, UMap.find?_erase_self] at hp'
      cases hp'
    · rw [UMap.find?_erase_ne _ hfd] at hp'
      exact h.own fd' p' hp'

/-- A command that leaves its processor as it was keeps the server settled. -/
theorem settled_process {fd now : ℤ} {p : Processor Λ} {value : RespValue} (h : srv.Settled)
    (hp : srv.processors.find? fd = some p)
    (hself : (processCommand env now value ⟨srv.world, p⟩).2.self = p)
    (hmailboxes : ∀ fd', ((processCommand env now value ⟨srv.world, p⟩).2.world.clientProcessors.find?
      fd').isSome = (srv.world.clientProcessors.find? fd').isSome) :
    (srv.process env fd now p value).2.Settled ∧
      (srv.process env fd now p value).2.processors = srv.processors := by
  have hsame : (srv.process env fd now p value).2.processors = srv.processors := by
    show srv.processors.set fd (processCommand env now value ⟨srv.world, p⟩).2.self = _
    rw [hself, UMap.set_of_find? hp]
  refine ⟨⟨fun fd' => ?_, ?_⟩, hsame⟩
  · rw [hsame]
    exact (hmailboxes fd').trans (h.registered fd')
  · rw [hsame]
    exact h.own

/-- The commands of publish/subscribe enter and remove what they say, each repetition included. -/
theorem process_pubsub {fd now : ℤ} {p : Processor Λ} {value : RespValue} (h : srv.Settled)
    (hp : srv.processors.find? fd = some p) (honly : (ServerEvent.command fd now value).OnlyPubSub) :
    (srv.process env fd now p value).2.Settled ∧
      (srv.process env fd now p value).2.processors = srv.processors ∧
      ∀ fd' channel,
        ((srv.process env fd now p value).2.world.pubsub.getSubscribers channel).count fd' =
          (ServerEvent.command fd now value).entries fd' channel
            ((srv.world.pubsub.getSubscribers channel).count fd') := by
  obtain ⟨hfd, hopen, -⟩ := h.own fd p hp
  rcases honly with hname | hname | hname
  · have hcommand := @processCommand_subscribe S _ Λ now value ⟨srv.world, p⟩ env hname hopen
    obtain ⟨hsettled, hsame⟩ := @settled_process S _ Λ env srv fd now p value h hp
      (by rw [hcommand]; rfl) (fun _ => by rw [hcommand]; rfl)
    refine ⟨hsettled, hsame, fun fd' channel => ?_⟩
    show ((processCommand env now value ⟨srv.world, p⟩).2.world.pubsub.getSubscribers
      channel).count fd' = _
    rw [hcommand]
    show ((value.channels.foldl _ srv.world.pubsub).getSubscribers channel).count fd' = _
    rw [PubSubManager.count_foldl_subscribe, ServerEvent.entries, hname]
    by_cases hfd' : fd' = fd
    · simp [hfd, hfd']
    · simp [hfd, hfd', Ne.symm hfd']
  · have hcommand := @processCommand_unsubscribe S _ Λ now value ⟨srv.world, p⟩ env hname hopen
    obtain ⟨hsettled, hsame⟩ := @settled_process S _ Λ env srv fd now p value h hp
      (by rw [hcommand]; rfl) (fun _ => by rw [hcommand]; rfl)
    refine ⟨hsettled, hsame, fun fd' channel => ?_⟩
    show ((processCommand env now value ⟨srv.world, p⟩).2.world.pubsub.getSubscribers
      channel).count fd' = _
    rw [hcommand]
    show ((value.channels.foldl _ srv.world.pubsub).getSubscribers channel).count fd' = _
    rw [PubSubManager.count_foldl_unsubscribe, ServerEvent.entries, hname]
    by_cases hfd' : fd' = fd
    · simp [hfd, hfd']
    · simp [hfd, hfd', Ne.symm hfd']
  · obtain ⟨hself, hpubsub, hmailboxes⟩ :=
      @processCommand_publish S _ Λ now value ⟨srv.world, p⟩ env hname hopen
    obtain ⟨hsettled, hsame⟩ := settled_process h hp hself hmailboxes
    refine ⟨hsettled, hsame, fun fd' channel => ?_⟩
    show ((processCommand env now value ⟨srv.world, p⟩).2.world.pubsub.getSubscribers
      channel).count fd' = _
    rw [hpubsub, ServerEvent.entries, hname]
    simp

/-- What a step of publish/subscribe does to connections and registry. -/
theorem settled_step (h : srv.Settled) (honly : e.OnlyPubSub)
    (hstep : srv.step? env boot e = some x) :
    x.2.Settled ∧
      (∀ fd, (x.2.processors.find? fd).isSome = e.connected fd (srv.processors.find? fd).isSome) ∧
      ∀ fd channel, (x.2.world.pubsub.getSubscribers channel).count fd =
        e.entries fd channel ((srv.world.pubsub.getSubscribers channel).count fd) := by
  obtain ⟨fd, n, rfl, -, hnone, rfl⟩ | ⟨fd, p, rfl, hp, rfl⟩ | ⟨fd, now, value, p, rfl, hp, rfl⟩ :=
    step?_cases hstep
  · refine ⟨settled_register h boot fd n, fun fd' => ?_, fun fd' channel => rfl⟩
    show ((srv.processors.set fd _).find? fd').isSome = _
    by_cases hfd : fd' = fd
    · simp [ServerEvent.connected, hfd]
    · simp [ServerEvent.connected, UMap.find?_set_ne _ _ hfd, Ne.symm hfd]
  · refine ⟨settled_cleanup h fd, fun fd' => ?_, fun fd' channel => rfl⟩
    show ((srv.processors.erase fd).find? fd').isSome = _
    by_cases hfd : fd' = fd
    · simp [ServerEvent.connected, hfd]
    · simp [ServerEvent.connected, UMap.find?_erase_ne _ hfd, Ne.symm hfd]
  · obtain ⟨hsettled, hsame, hcount⟩ := process_pubsub h hp honly
    exact ⟨hsettled, fun fd' => by rw [hsame]; rfl, hcount⟩

end Server

/-! ### Messages reach subscribers only -/

/-- A running server before its first connection. -/
def Server.start (d : Data S) : Server S Λ := { world := { data := d } }

/-- No connection is given a descriptor that the registry still lists. -/
def FreshAccepts (env : Env Λ) (boot : Λ) : List ServerEvent → Server S Λ → Prop
  | [], _ => True
  | e :: es, srv =>
      (∀ fd n, e = .accept fd n → ∀ channel, fd ∉ srv.world.pubsub.getSubscribers channel) ∧
        ∀ x, srv.step? env boot e = some x → FreshAccepts env boot es x.2

/-- An open connection that the registry lists is that of a subscribed client. -/
structure Truthful (history : List ServerEvent) (srv : Server S Λ) : Prop where
  settled : srv.Settled
  listed : ∀ fd channel, (srv.processors.find? fd).isSome = true →
    fd ∈ srv.world.pubsub.getSubscribers channel → Subscribed fd channel history

theorem subscribed_append {fd : ℤ} {channel : Bytes} {history : List ServerEvent} {e : ServerEvent} :
    Subscribed fd channel (history ++ [e]) ↔
      e.subscribed fd channel (decide (Subscribed fd channel history)) = true := by
  have hdecide : decide (Subscribed fd channel history) =
      history.foldl (ServerEvent.subscribed fd channel) false := by
    rw [Bool.eq_iff_iff, decide_eq_true_iff]
    rfl
  rw [hdecide, Subscribed, List.foldl_append]
  rfl

theorem truthful_step {env : Env Λ} {boot : Λ} {e : ServerEvent} {history : List ServerEvent}
    {srv : Server S Λ} {x : Bytes × Server S Λ} (h : Truthful history srv) (honly : e.OnlyPubSub)
    (hfresh : ∀ fd n, e = .accept fd n → ∀ channel, fd ∉ srv.world.pubsub.getSubscribers channel)
    (hstep : srv.step? env boot e = some x) : Truthful (history ++ [e]) x.2 := by
  obtain ⟨hsettled, hconnected, hcount⟩ := Server.settled_step h.settled honly hstep
  refine ⟨hsettled, fun fd channel hopen hmem => subscribed_append.mpr ?_⟩
  rw [hconnected] at hopen
  rw [← List.count_pos_iff, hcount] at hmem
  have hbefore : (srv.processors.find? fd).isSome = true →
      0 < (srv.world.pubsub.getSubscribers channel).count fd → Subscribed fd channel history :=
    fun hfd hpos => h.listed fd channel hfd (List.count_pos_iff.mp hpos)
  cases e with
  | accept fd' n =>
    by_cases hfd : fd' = fd
    · subst hfd
      exact absurd (List.count_pos_iff.mp hmem) (hfresh fd' n rfl channel)
    · simp only [ServerEvent.connected, hfd, decide_false, Bool.or_false] at hopen
      simpa [ServerEvent.subscribed, hfd] using hbefore hopen hmem
  | close fd' =>
    by_cases hfd : fd' = fd
    · simp [ServerEvent.connected, hfd] at hopen
    · simp only [ServerEvent.connected, ne_eq, hfd, not_false_eq_true, decide_true, Bool.and_true] at hopen
      simpa [ServerEvent.subscribed, hfd] using hbefore hopen hmem
  | command fd' now value =>
    by_cases hfd : fd' = fd
    · simp only [ServerEvent.entries, hfd, if_true] at hmem
      rcases honly with hname | hname | hname
      · simp only [hname] at hmem
        simp only [ServerEvent.subscribed, hfd, if_true, hname, Bool.or_eq_true, decide_eq_true_eq]
        by_cases hchannel : channel ∈ value.channels
        · exact .inr hchannel
        · rw [List.count_eq_zero_of_not_mem hchannel, Nat.add_zero] at hmem
          exact .inl (hbefore hopen hmem)
      · simp only [hname] at hmem
        simp only [ServerEvent.subscribed, hfd, if_true, hname, Bool.and_eq_true, decide_eq_true_eq]
        split at hmem
        · omega
        · rename_i hchannel
          exact ⟨hbefore hopen hmem, hchannel⟩
      · simp only [hname] at hmem
        simpa [ServerEvent.subscribed, hfd, hname] using hbefore hopen hmem
    · simp only [ServerEvent.entries, hfd, if_false] at hmem
      simpa [ServerEvent.subscribed, hfd] using hbefore hopen hmem

theorem truthful_run {env : Env Λ} {boot : Λ} {es : List ServerEvent} {history : List ServerEvent}
    {srv srv' : Server S Λ} (h : Truthful history srv) (honly : ∀ e ∈ es, e.OnlyPubSub)
    (hfresh : FreshAccepts env boot es srv) (hrun : srv.run? env boot es = some srv') :
    Truthful (history ++ es) srv' := by
  induction es generalizing history srv with
  | nil =>
    cases hrun
    rwa [List.append_nil]
  | cons e es ih =>
    obtain ⟨x, hx, hrest⟩ := Server.run?_cons hrun
    have hstep := truthful_step h (honly e List.mem_cons_self) hfresh.1 hx
    have := ih hstep (fun e' he' => honly e' (List.mem_cons_of_mem _ he')) (hfresh.2 x hx) hrest
    rwa [List.append_assoc] at this

theorem truthful_start (d : Data S) : Truthful [] (Server.start d : Server S Λ) where
  settled := ⟨fun _ => rfl, fun _ _ hp => by cases hp⟩
  listed _ _ hopen := by cases hopen

/-- A `PUBLISH` with both its arguments. -/
def RespValue.Publishes (command : RespValue) (channel message : Bytes) : Prop :=
  ∃ name, command = .array [.bulkString name, .bulkString channel, .bulkString message] ∧
    Command.ofName name = some .publish

/-- The reply counts the entries of the channel, and each of them is served. -/
theorem process_publish {env : Env Λ} {fd now : ℤ} {p : Processor Λ} {value : RespValue}
    {srv : Server S Λ} {channel message : Bytes} (h : srv.Settled)
    (hp : srv.processors.find? fd = some p) (hvalue : value.Publishes channel message) :
    (srv.process env fd now p value).1 =
        intReply (srv.world.pubsub.getSubscribers channel).length ∧
      ∀ fd' mailbox, srv.world.clientProcessors.find? fd' = some mailbox →
        ∃ mailbox', (srv.process env fd now p value).2.world.clientProcessors.find? fd' =
            some mailbox' ∧
          mailbox'.pubsubMessages = mailbox.pubsubMessages ++
            List.replicate ((srv.world.pubsub.getSubscribers channel).count fd')
              (pubsubMessage channel message) := by
  obtain ⟨name, rfl, hname⟩ := hvalue
  obtain ⟨-, hopen, hprocessors⟩ := h.own fd p hp
  have hdirect := @processCommand_direct S _ Λ env now
    (.array [.bulkString name, .bulkString channel, .bulkString message]) ⟨srv.world, p⟩ _ hname rfl
    (.inl hopen)
  refine ⟨congrArg Prod.fst hdirect, fun fd' mailbox hmailbox => ?_⟩
  refine ⟨_, ?_, pubsubMessages_iterate _ _ mailbox⟩
  show (processCommand env now _ _).2.world.clientProcessors.find? fd' = _
  rw [hdirect]
  show (if p.hasClientProcessors then deliver _ _ srv.world.clientProcessors
    else srv.world.clientProcessors).find? fd' = _
  rw [if_pos hprocessors, find?_deliver, hmailbox]
  rfl

/-- In a run of publish/subscribe in which no connection is given a descriptor that the registry still
lists, a message is queued only to a client that, since its connection was opened, subscribed to the
channel and has not unsubscribed. -/
theorem publish_reaches_subscribers (env : Env Λ) (boot : Λ) (d : Data S) (history : List ServerEvent)
    (honly : ∀ e ∈ history, e.OnlyPubSub) (hfresh : FreshAccepts env boot history (Server.start d))
    (srv : Server S Λ) (hrun : (Server.start d).run? env boot history = some srv) (fd now : ℤ)
    (value : RespValue) (channel message : Bytes) (hvalue : value.Publishes channel message)
    (x : Bytes × Server S Λ) (hstep : srv.step? env boot (.command fd now value) = some x) (fd' : ℤ)
    (before after : Mailbox) (hbefore : srv.world.clientProcessors.find? fd' = some before)
    (hafter : x.2.world.clientProcessors.find? fd' = some after)
    (hqueued : after.pubsubMessages ≠ before.pubsubMessages) : Subscribed fd' channel history := by
  have htruthful := truthful_run (truthful_start d) honly hfresh hrun
  rw [List.nil_append] at htruthful
  obtain ⟨p, hp, rfl⟩ := Option.map_eq_some_iff.mp hstep
  obtain ⟨-, hmailboxes⟩ := @process_publish S _ Λ env fd now p value srv channel message
    htruthful.settled hp hvalue
  obtain ⟨after', hafter', hmessages⟩ := hmailboxes fd' before hbefore
  obtain rfl := Option.some.inj (hafter'.symm.trans hafter)
  apply htruthful.listed fd' channel
  · rw [← htruthful.settled.registered, hbefore]
    rfl
  · by_contra hnot
    rw [List.count_eq_zero_of_not_mem hnot] at hmessages
    exact hqueued (by simpa using hmessages)

/-- A command on the connection `fd`, given by its words. -/
def ServerEvent.call (fd : ℤ) (words : List Bytes) : ServerEvent :=
  .command fd 0 (.array (words.map .bulkString))

/-- Client 7 subscribes to `c`. -/
def subscribeHistory : List ServerEvent :=
  [.accept 7 9, .call 7 [str "SUBSCRIBE", [99]], .accept 8 10]

/-- Client 7 subscribes to `c` and leaves; its descriptor is given to another client. -/
def reuseHistory : List ServerEvent :=
  [.accept 7 9, .call 7 [str "SUBSCRIBE", [99]], .close 7, .accept 7 9, .accept 8 10]

theorem freshAccepts_subscribeHistory :
    FreshAccepts Env.standalone () subscribeHistory (Server.start (∅ : Data NatScore)) := by
  refine ⟨fun _ _ _ _ => List.not_mem_nil, fun x hx => ?_⟩
  cases hx
  refine ⟨fun _ _ he => ServerEvent.noConfusion he, fun y hy => ?_⟩
  cases hy
  refine ⟨fun fd n he channel => ?_, fun _ _ => trivial⟩
  cases he
  show (8 : ℤ) ∉ PubSubManager.getSubscribers channel (PubSubManager.subscribe 7 [99] {})
  rw [← List.count_eq_zero, PubSubManager.count_subscribe]
  simp [PubSubManager.getSubscribers]

theorem publish_reaches_subscriber :
    (∀ e ∈ subscribeHistory, e.OnlyPubSub) ∧
      FreshAccepts Env.standalone () subscribeHistory (Server.start (∅ : Data NatScore)) ∧
      Subscribed 7 [99] subscribeHistory := by
  have honly : ∀ e ∈ subscribeHistory, e.OnlyPubSub := by decide
  refine ⟨honly, freshAccepts_subscribeHistory, ?_⟩
  exact publish_reaches_subscribers Env.standalone () ∅ subscribeHistory honly
    freshAccepts_subscribeHistory _ rfl 8 0 (.array [.bulkString (str "PUBLISH"), .bulkString [99],
      .bulkString [109]]) [99] [109] ⟨str "PUBLISH", rfl, by decide⟩ _ rfl 7 _ _ rfl rfl (by decide)

/-- The message goes to the client that was given the descriptor, which never subscribed. -/
theorem publish_leaks_to_reused_descriptor :
    ¬ ∀ (history : List ServerEvent), (∀ e ∈ history, e.OnlyPubSub) → ∀ srv : Server NatScore Unit,
      (Server.start ∅).run? Env.standalone () history = some srv →
      ∀ (fd now : ℤ) (value : RespValue) (channel message : Bytes),
      value.Publishes channel message → ∀ x, srv.step? Env.standalone () (.command fd now value) = some x →
      ∀ (fd' : ℤ) (before after : Mailbox), srv.world.clientProcessors.find? fd' = some before →
      x.2.world.clientProcessors.find? fd' = some after →
      after.pubsubMessages ≠ before.pubsubMessages → Subscribed fd' channel history := by
  intro h
  have honly : ∀ e ∈ reuseHistory, e.OnlyPubSub := by decide
  have hleak := h reuseHistory honly _ rfl 8 0 (.array [.bulkString (str "PUBLISH"), .bulkString [99],
    .bulkString [109]]) [99] [109] ⟨str "PUBLISH", rfl, by decide⟩ _ rfl 7 _ _ rfl rfl (by decide)
  exact absurd hleak (by decide)

/-! ### One copy each -/

/-- Every `SUBSCRIBE` names distinct channels to which the client is not subscribed yet. -/
def NewSubscriptions : List ServerEvent → List ServerEvent → Prop
  | _, [] => True
  | history, e :: es =>
      (∀ fd now value, e = .command fd now value → value.command? = some .subscribe →
        value.channels.Nodup ∧ ∀ channel ∈ value.channels, ¬ Subscribed fd channel history) ∧
        NewSubscriptions (history ++ [e]) es

/-- The registry lists the subscribed clients, once each, and all of them are connected. -/
structure Exact (history : List ServerEvent) (srv : Server S Λ) : Prop where
  settled : srv.Settled
  counts : ∀ fd channel, (srv.world.pubsub.getSubscribers channel).count fd =
    if Subscribed fd channel history then 1 else 0
  present : ∀ fd channel, Subscribed fd channel history → (srv.processors.find? fd).isSome = true

/-- A command enters or removes one entry for each subscription it begins or ends. -/
theorem entries_command {fd fd' now : ℤ} {channel : Bytes} {history : List ServerEvent} {value : RespValue}
    (honly : (ServerEvent.command fd' now value).OnlyPubSub)
    (hnew : value.command? = some .subscribe →
      value.channels.Nodup ∧ ∀ channel ∈ value.channels, ¬ Subscribed fd' channel history) :
    (ServerEvent.command fd' now value).entries fd channel (if Subscribed fd channel history then 1 else 0) =
      if Subscribed fd channel (history ++ [.command fd' now value]) then 1 else 0 := by
  simp only [subscribed_append, ServerEvent.entries, ServerEvent.subscribed]
  by_cases hfd : fd' = fd
  · subst hfd
    rcases honly with hname | hname | hname
    · obtain ⟨hnodup, hfirst⟩ := hnew hname
      by_cases hchannel : channel ∈ value.channels
      · simp [hname, hchannel, hfirst channel hchannel, List.count_eq_one_of_mem hnodup hchannel]
      · simp [hname, hchannel, List.count_eq_zero_of_not_mem hchannel]
    · by_cases hchannel : channel ∈ value.channels <;> simp [hname, hchannel]
    · simp [hname]
  · simp [hfd]

theorem exact_step {env : Env Λ} {boot : Λ} {e : ServerEvent} {history : List ServerEvent} {srv : Server S Λ}
    {x : Bytes × Server S Λ} (h : Exact history srv) (honly : e.OnlyPubSub)
    (hstay : e.isClose = false)
    (hnew : ∀ fd now value, e = .command fd now value → value.command? = some .subscribe →
      value.channels.Nodup ∧ ∀ channel ∈ value.channels, ¬ Subscribed fd channel history)
    (hstep : srv.step? env boot e = some x) : Exact (history ++ [e]) x.2 := by
  obtain ⟨hsettled, hconnected, hcount⟩ := Server.settled_step h.settled honly hstep
  obtain ⟨fd', n, rfl, -, hnone, -⟩ | ⟨fd', p, rfl, -, -⟩ | ⟨fd', now, value, p, rfl, hp, -⟩ :=
    Server.step?_cases hstep
  · -- the client is new: no event of the history can have subscribed it
    have hnever : ∀ channel, ¬ Subscribed fd' channel history := by
      intro channel hsub
      have hopen := h.present fd' channel hsub
      rw [hnone] at hopen
      cases hopen
    refine ⟨hsettled, fun fd channel => ?_, fun fd channel hsub => ?_⟩
    · rw [hcount, h.counts]
      simp only [subscribed_append, ServerEvent.entries, ServerEvent.subscribed]
      by_cases hfd : fd' = fd
      · simp [← hfd, hnever]
      · simp [hfd]
    · rw [subscribed_append] at hsub
      rw [hconnected]
      by_cases hfd : fd' = fd
      · simp [ServerEvent.connected, hfd]
      · simp only [ServerEvent.subscribed, hfd, if_false, decide_eq_true_eq] at hsub
        simp [ServerEvent.connected, h.present fd channel hsub]
  · cases hstay
  · refine ⟨hsettled, fun fd channel => ?_, fun fd channel hsub => ?_⟩
    · rw [hcount, h.counts]
      exact entries_command honly (hnew fd' now value rfl)
    · rw [hconnected]
      show (srv.processors.find? fd).isSome = true
      by_cases hfd : fd' = fd
      · rw [← hfd, hp]
        rfl
      · apply h.present fd channel
        rw [subscribed_append] at hsub
        simpa [ServerEvent.subscribed, hfd] using hsub

theorem exact_run {env : Env Λ} {boot : Λ} {es : List ServerEvent} {history : List ServerEvent}
    {srv srv' : Server S Λ} (h : Exact history srv) (honly : ∀ e ∈ es, e.OnlyPubSub)
    (hstay : ∀ e ∈ es, e.isClose = false) (hnew : NewSubscriptions history es)
    (hrun : srv.run? env boot es = some srv') : Exact (history ++ es) srv' := by
  induction es generalizing history srv with
  | nil =>
    cases hrun
    rwa [List.append_nil]
  | cons e es ih =>
    obtain ⟨x, hx, hrest⟩ := Server.run?_cons hrun
    have hstep := exact_step h (honly e List.mem_cons_self) (hstay e List.mem_cons_self) hnew.1 hx
    have := ih hstep (fun e' he' => honly e' (List.mem_cons_of_mem _ he'))
      (fun e' he' => hstay e' (List.mem_cons_of_mem _ he')) hnew.2 hrest
    rwa [List.append_assoc] at this

theorem exact_start (d : Data S) : Exact [] (Server.start d : Server S Λ) where
  settled := ⟨fun _ => rfl, fun _ _ hp => by cases hp⟩
  counts _ _ := rfl
  present _ _ hsub := by cases hsub

/-- The entries of a channel, counted, are its subscribed clients. -/
theorem Exact.length_subscribers {history : List ServerEvent} {srv : Server S Λ} (h : Exact history srv)
    (channel : Bytes) :
    (srv.world.pubsub.getSubscribers channel).length =
      (srv.processors.keys.filter fun fd => Subscribed fd channel history).length := by
  have hnodup : (srv.world.pubsub.getSubscribers channel).Nodup := by
    rw [List.nodup_iff_count_le_one]
    intro fd
    rw [h.counts]
    split <;> omega
  have hkeys : (srv.processors.keys.filter fun fd => Subscribed fd channel history).Nodup :=
    srv.processors.nodup.filter _
  apply List.Perm.length_eq
  rw [List.perm_ext_iff_of_nodup hnodup hkeys]
  intro fd
  rw [← List.count_pos_iff, h.counts, List.mem_filter, UMap.mem_keys_iff]
  constructor
  · intro hpos
    split at hpos
    · rename_i hsub
      exact ⟨h.present fd channel hsub, by simpa using hsub⟩
    · omega
  · intro hsub
    rw [if_pos (by simpa using hsub.2)]
    exact Nat.one_pos

/-- In a run of publish/subscribe by clients that stay connected, whose `SUBSCRIBE`s name distinct
channels that are new to the client, each `PUBLISH` queues one copy to each subscribed client and none
to others, and replies the number of the subscribed clients. -/
theorem publish_once (env : Env Λ) (boot : Λ) (d : Data S) (history : List ServerEvent)
    (honly : ∀ e ∈ history, e.OnlyPubSub) (hstay : ∀ e ∈ history, e.isClose = false)
    (hnew : NewSubscriptions [] history) (srv : Server S Λ)
    (hrun : (Server.start d).run? env boot history = some srv) (fd now : ℤ) (value : RespValue)
    (channel message : Bytes) (hvalue : value.Publishes channel message) (x : Bytes × Server S Λ)
    (hstep : srv.step? env boot (.command fd now value) = some x) :
    x.1 = intReply
        (srv.processors.keys.filter fun fd' => Subscribed fd' channel history).length ∧
      ∀ fd' before, srv.world.clientProcessors.find? fd' = some before →
        ∃ after, x.2.world.clientProcessors.find? fd' = some after ∧
          after.pubsubMessages = before.pubsubMessages ++
            if Subscribed fd' channel history then [pubsubMessage channel message] else [] := by
  have hexact := exact_run (exact_start d) honly hstay hnew hrun
  rw [List.nil_append] at hexact
  obtain ⟨p, hp, rfl⟩ := Option.map_eq_some_iff.mp hstep
  obtain ⟨hreply, hmailboxes⟩ := @process_publish S _ Λ env fd now p value srv channel message
    hexact.settled hp hvalue
  refine ⟨hreply.trans (by rw [hexact.length_subscribers]), fun fd' before hbefore => ?_⟩
  obtain ⟨after, hafter, hmessages⟩ := hmailboxes fd' before hbefore
  refine ⟨after, hafter, hmessages.trans ?_⟩
  rw [hexact.counts]
  split <;> rfl

/-- The history of one subscription satisfies the conditions. -/
theorem newSubscriptions_subscribeHistory : NewSubscriptions [] subscribeHistory := by
  refine ⟨fun _ _ _ he => ServerEvent.noConfusion he, fun fd now value he _ => ?_,
    fun _ _ _ he => ServerEvent.noConfusion he, trivial⟩
  cases he
  exact ⟨by decide, by decide⟩

theorem publish_once_to_subscriber :
    let srv : Server NatScore Unit :=
      ((Server.start ∅).run? Env.standalone () subscribeHistory).getD {}
    let publish := ServerEvent.call 8 [str "PUBLISH", [99], [109]]
    NewSubscriptions [] subscribeHistory ∧
      (srv.step? Env.standalone () publish).map Prod.fst = some (intReply 1) := by
  refine ⟨newSubscriptions_subscribeHistory, ?_⟩
  obtain ⟨hreply, -⟩ := publish_once Env.standalone () (∅ : Data NatScore) subscribeHistory (by decide)
    (by decide) newSubscriptions_subscribeHistory _ rfl 8 0
    (.array [.bulkString (str "PUBLISH"), .bulkString [99], .bulkString [109]]) [99] [109]
    ⟨str "PUBLISH", rfl, by decide⟩ _ rfl
  exact congrArg some hreply

/-- A client that subscribes twice is served twice. -/
theorem publish_twice :
    ¬ ∀ (history : List ServerEvent), (∀ e ∈ history, e.OnlyPubSub) →
      (∀ e ∈ history, e.isClose = false) → ∀ srv : Server NatScore Unit,
      (Server.start ∅).run? Env.standalone () history = some srv →
      ∀ (fd now : ℤ) (value : RespValue) (channel message : Bytes),
      value.Publishes channel message →
      ∀ x, srv.step? Env.standalone () (.command fd now value) = some x →
      x.1 = intReply (srv.processors.keys.filter fun fd' => Subscribed fd' channel history).length ∧
      ∀ fd' before, srv.world.clientProcessors.find? fd' = some before →
        ∃ after, x.2.world.clientProcessors.find? fd' = some after ∧
          after.pubsubMessages = before.pubsubMessages ++
            if Subscribed fd' channel history then [pubsubMessage channel message] else [] := by
  intro h
  obtain ⟨hreply, -⟩ := h [.accept 7 9, .call 7 [str "SUBSCRIBE", [99]],
    .call 7 [str "SUBSCRIBE", [99]]] (by decide) (by decide) _ rfl 7 0
    (.array [.bulkString (str "PUBLISH"), .bulkString [99], .bulkString [109]]) [99] [109]
    ⟨str "PUBLISH", rfl, by decide⟩ _ rfl
  exact absurd hreply (by decide)

end MinimalRedis
