import Cursov.ChatRelay
import Cursov.ClientSession
import Cursov.Library.Tagged

/-!
# A conversation over TCP

Several handler threads write to one client's connection: the client's own handler
its acknowledgements, the others what they relay. The client reads the merged stream
in chunks of its own. While nobody joins or leaves, everyone is shown everyone
else's text.
-/

namespace ChatRoom

open Bytes Transition Server ChatStream ChatRelay Tagged

/-- What the step writes to the number `x`, tagged with the handler that writes it. -/
def puts (x : Fd) (s : State) : Action → List (Nat × ServerSend)
  | .handler c .ack =>
    match s.handler c with
    | some ⟨fd, .received _⟩ => if fd = x then [(c, .ack)] else []
    | _ => []
  | .handler c .relay =>
    match s.handler c with
    | some ⟨fd, .relaying message cursor _⟩ =>
      if s.tcpClients.slots[cursor]? = some x ∧ x ≠ fd then [(c, .relay message)] else []
    | _ => []
  | _ => []

/-- All that a run writes to the number `x`, in the order of the sends. -/
def connection (x : Fd) : State → List Action → List (Nat × ServerSend)
  | _, [] => []
  | s, a :: rest => puts x s a ++
    match step s a with
    | none => []
    | some t => connection x t rest

theorem connection_cons {x : Fd} {s t : State} {a : Action} (moved : step s a = some t)
    (rest : List Action) : connection x s (a :: rest) = puts x s a ++ connection x t rest := by
  rw [connection, moved]

theorem relayed_append (before after : List ServerSend) :
    relayed (before ++ after) = relayed before ++ relayed after := by
  rw [relayed, List.filterMap_append, relayed, relayed]

/-- Of a handler's steps only those of its broadcast loop relay. -/
theorem handlerMove_relays {s t : State} {c : Nat} {h : Handler} {pc : HandlerPc}
    {a : HandlerAction} (other : a ≠ .relay) (moved : handlerMove s c h pc a = some t) :
    t.relays = s.relays := by
  cases a with
  | relay => exact absurd rfl other
  | recv buffer =>
    cases pc with
    | receiving =>
      simp only [handlerMove] at moved
      split at moved
      · rw [Option.ite_none_right_eq_some] at moved
        obtain ⟨_, moved⟩ := moved
        cases moved
        rfl
      · cases moved
    | _ => cases moved
  | endBroadcast =>
    cases pc with
    | relaying message cursor stop =>
      simp only [handlerMove, Option.ite_none_left_eq_some] at moved
      obtain ⟨_, moved⟩ := moved
      cases moved
      rfl
    | _ => cases moved
  | _ =>
    cases pc <;> cases moved
    rfl

theorem relayed_ack (c d : Nat) (fd x : Fd) :
    relayed (ofTag c (if fd = x then [(d, ServerSend.ack)] else [])) = [] := by
  by_cases mine : fd = x
  · rw [if_pos mine, ofTag_cons]
    split <;> rfl
  · rw [if_neg mine]
    rfl

/-- The relays of a step are those of its record. -/
theorem puts_relays {s t : State} {a : Action} (moved : step s a = some t) (c : Nat) (x : Fd) :
    relayedTo c x t = relayedTo c x s ++ relayed (ofTag c (puts x s a)) := by
  have unchanged {sends : List ServerSend} (same : t.relays = s.relays)
      (none : relayed sends = []) :
      relayedTo c x t = relayedTo c x s ++ relayed sends := by
    rw [relayedTo, same, ← relayedTo, none, List.append_nil]
  cases a with
  | control a => exact unchanged (controlStep_frame moved).relays rfl
  | listener a => cases listenerStep_effect moved <;> exact unchanged rfl rfl
  | handler d a =>
    obtain ⟨⟨fd, pc⟩, held, place⟩ := Option.bind_eq_some_iff.mp moved
    cases a with
    | relay =>
      cases pc with
      | relaying message cursor stop =>
        simp only [handlerMove, Option.ite_none_right_eq_some, Option.map_eq_some_iff] at place
        obtain ⟨_, client, slot, rfl⟩ := place
        simp only [puts, held, slot, Option.some.injEq]
        by_cases own : client = fd
        · subst client
          refine unchanged (if_neg fun differs => differs rfl) ?_
          rw [if_neg fun both => both.2 both.1.symm]
          rfl
        · rw [if_pos own]
          refine (relayedTo_append c x (s.goto d ⟨fd, .relaying message cursor stop⟩
            (.relaying message (cursor + 1) stop)) ⟨d, client, message⟩).trans ?_
          refine congrArg (relayedTo c x s ++ ·) ?_
          by_cases here : client = x
          · subst x
            by_cases mine : d = c <;> simp [mine, own, ofTag_cons, relayed]
          · rw [if_neg fun both => here both.2, if_neg fun both => here both.1]
            rfl
      | _ => cases place
    | ack =>
      refine unchanged (handlerMove_relays (by simp) place) ?_
      cases pc with
      | received buffer =>
        simp only [puts, held]
        exact relayed_ack c d fd x
      | _ => cases place
    | _ => exact unchanged (handlerMove_relays (by simp) place) rfl

theorem connection_relays {x : Fd} {s t : State} {actions : List Action}
    (path : run step s actions = some t) (c : Nat) :
    relayedTo c x t = relayedTo c x s ++ relayed (ofTag c (connection x s actions)) := by
  induction actions generalizing s with
  | nil =>
    cases path
    exact (List.append_nil _).symm
  | cons a rest ih =>
    obtain ⟨mid, moved, later⟩ := run_cons_iff.mp path
    rw [ih later, puts_relays moved, connection_cons moved, ofTag_append, relayed_append,
      List.append_assoc]

theorem mem_ite_singleton {α : Type} {p : Prop} [Decidable p] {x y : α}
    (mem : x ∈ if p then [y] else []) : x = y := by
  split at mem
  · exact List.mem_singleton.mp mem
  · cases mem

/-- What a step writes is tagged with the handler that takes the step. -/
theorem puts_tag {x : Fd} {s : State} {d : Nat} {a : HandlerAction} {p : Nat × ServerSend}
    (written : p ∈ puts x s (.handler d a)) : p.1 = d := by
  cases a with
  | ack =>
    simp only [puts] at written
    split at written
    · rw [mem_ite_singleton written]
    · cases written
  | relay =>
    simp only [puts] at written
    split at written
    · rw [mem_ite_singleton written]
    · cases written
  | _ => cases written

theorem puts_other {c : Nat} {x : Fd} {s : State} {a : Action} (other : ∀ b, a ≠ .handler c b) :
    ofTag c (puts x s a) = [] := by
  rw [ofTag_eq_nil_iff]
  intro p written same
  cases a with
  | handler d b =>
    obtain rfl : d = c := (puts_tag written).symm.trans same
    exact other b rfl
  | _ => cases written

/-- A handler that is not there, or has ended, stays so while nobody joins, and takes no step. -/
def Gone (c : Nat) (s : State) : Prop :=
  s.handler c = none ∨ ∃ fd, s.handler c = some ⟨fd, .ended⟩

/-- The other threads do not move handler `c`, and without a new client none is created. -/
theorem handler_other {c : Nat} {s t : State} {a : Action} (other : ∀ b, a ≠ .handler c b)
    (moved : step s a = some t) (fixed : changesList a = false) : t.handler c = s.handler c := by
  cases a with
  | control a => exact congrFun (controlStep_frame moved).handler c
  | listener a =>
    cases listenerStep_effect moved with
    | moves => rfl
    | accepts => rfl
    | adopts d y waiting => cases fixed
  | handler d a =>
    have apart : c ≠ d := fun same => other a (same ▸ rfl)
    obtain ⟨h, held, effect⟩ := handlerStep_effect moved
    cases effect with
    | moves _ pc relays => exact handler_goto_of_ne s h pc apart
    | closes leaving => exact handler_goto_of_ne _ h .closed apart
    | erases closed => cases fixed

theorem gone_step {c : Nat} {s t : State} {a : Action} (gone : Gone c s) (moved : step s a = some t)
    (fixed : changesList a = false) : (∀ b, a ≠ .handler c b) ∧ Gone c t := by
  have other : ∀ b, a ≠ .handler c b := by
    rintro b rfl
    obtain ⟨h, held, place⟩ := Option.bind_eq_some_iff.mp moved
    rcases gone with absent | ⟨fd, ended⟩
    · rw [absent] at held
      cases held
    · obtain rfl := Option.some.inj (ended.symm.trans held)
      cases b <;> cases place
  refine ⟨other, ?_⟩
  rwa [Gone, handler_other other moved fixed]

theorem gone_silent {c : Nat} {x : Fd} {s t : State} {actions : List Action} (gone : Gone c s)
    (path : run step s actions = some t) (fixed : ∀ a ∈ actions, changesList a = false) :
    ofTag c (connection x s actions) = [] := by
  induction actions generalizing s with
  | nil => rfl
  | cons a rest ih =>
    obtain ⟨mid, moved, later⟩ := run_cons_iff.mp path
    obtain ⟨here, others⟩ := List.forall_mem_cons.mp fixed
    obtain ⟨other, still⟩ := gone_step gone moved here
    rw [connection_cons moved, ofTag_append, puts_other other, ih still later others]
    rfl

/-- A chunk that has been received and not yet acknowledged. -/
def unacked : HandlerPc → Nat
  | .received _ => 1
  | _ => 0

def acks (c : Nat) (stream : List (Nat × ServerSend)) : Nat := (ofTag c stream).count .ack

/-- One step of a handler's account of acknowledgements, on the number `x`. -/
def AckStep (c : Nat) (fd x : Fd) (s : State) (a : Action) (pc pc' : HandlerPc) : Prop :=
  if fd = x then acks c (puts x s a) + unacked pc' = unacked pc + (chunkOf c a).length
  else acks c (puts x s a) = 0

theorem ackStep_silent {c : Nat} {fd x : Fd} {s : State} {a : Action} {pc pc' : HandlerPc}
    (silent : acks c (puts x s a) = 0) (same : unacked pc' = unacked pc + (chunkOf c a).length) :
    AckStep c fd x s a pc pc' := by
  rw [AckStep, silent, Nat.zero_add]
  split
  · exact same
  · rfl

/-- A handler acknowledges on its own number only, and each chunk once. -/
theorem own_acks {c : Nat} {fd : Fd} {s t : State} {pc : HandlerPc} {a : HandlerAction}
    (held : s.handler c = some ⟨fd, pc⟩) (moved : step s (.handler c a) = some t) (x : Fd) :
    ∃ pc', t.handler c = some ⟨fd, pc'⟩ ∧ AckStep c fd x s (.handler c a) pc pc' := by
  have place : handlerMove s c ⟨fd, pc⟩ pc a = some t := by
    rwa [step, handlerStep, held, Option.bind_some] at moved
  cases a with
  | test =>
    cases pc with
    | loopTest =>
      cases place
      refine ⟨_, handler_goto _ _ _ _, ackStep_silent rfl ?_⟩
      cases s.isRunning <;> rfl
    | _ => cases place
  | recv chunk =>
    cases pc with
    | receiving =>
      have received : t = s.goto c ⟨fd, .receiving⟩ (.received chunk) := by
        simp only [handlerMove] at place
        split at place
        · simp only [Option.ite_none_right_eq_some, Option.some.injEq] at place
          exact place.2.symm
        · cases place
      subst t
      refine ⟨_, handler_goto _ _ _ _, ackStep_silent rfl ?_⟩
      rw [chunkOf, if_pos rfl]
      rfl
    | _ => cases place
  | ack =>
    cases pc with
    | received buffer =>
      cases place
      refine ⟨_, handler_goto _ _ _ _, ?_⟩
      rw [AckStep, acks, puts, held]
      by_cases own : fd = x <;> simp [own, unacked, chunkOf, ofTag_cons]
    | _ => cases place
  | relay =>
    cases pc with
    | relaying message cursor stop =>
      simp only [handlerMove, Option.ite_none_right_eq_some, Option.map_eq_some_iff] at place
      obtain ⟨_, client, _, rfl⟩ := place
      refine ⟨_, handler_goto _ _ _ _, ackStep_silent ?_ rfl⟩
      rw [acks, puts, held]
      dsimp only
      split <;> simp [ofTag_cons]
    | _ => cases place
  | endBroadcast =>
    cases pc with
    | relaying message cursor stop =>
      simp only [handlerMove, Option.ite_none_left_eq_some, Option.some.injEq] at place
      obtain ⟨_, rfl⟩ := place
      exact ⟨_, handler_goto _ _ _ _, ackStep_silent rfl rfl⟩
    | _ => cases place
  | _ =>
    cases pc <;> cases place
    exact ⟨_, handler_goto _ _ _ _, ackStep_silent rfl rfl⟩

theorem step_acks {c : Nat} {fd : Fd} {s t : State} {pc : HandlerPc} {a : Action}
    (held : s.handler c = some ⟨fd, pc⟩) (moved : step s a = some t)
    (fixed : changesList a = false) (x : Fd) :
    ∃ pc', t.handler c = some ⟨fd, pc'⟩ ∧ AckStep c fd x s a pc pc' := by
  by_cases mine : ∃ b, a = .handler c b
  · obtain ⟨b, rfl⟩ := mine
    exact own_acks held moved x
  · have other : ∀ b, a ≠ .handler c b := fun b same => mine ⟨b, same⟩
    refine ⟨pc, (handler_other other moved fixed).trans held, ackStep_silent ?_ ?_⟩
    · rw [acks, puts_other other]
      rfl
    · cases a with
      | handler d b =>
        have apart : d ≠ c := fun same => other b (same ▸ rfl)
        cases b <;> simp [chunkOf, apart]
      | _ => rfl

/-- Between two places where nothing is unacknowledged a handler has acknowledged every chunk
it received on its own number, and nothing on any other. -/
theorem run_acks {c : Nat} {fd : Fd} {s t : State} {pc : HandlerPc} {actions : List Action}
    (held : s.handler c = some ⟨fd, pc⟩) (path : run step s actions = some t)
    (fixed : ∀ a ∈ actions, changesList a = false) (x : Fd) :
    ∃ pc', t.handler c = some ⟨fd, pc'⟩ ∧
      if fd = x then acks c (connection x s actions) + unacked pc' =
        unacked pc + (received c actions).length
      else acks c (connection x s actions) = 0 := by
  induction actions generalizing s pc with
  | nil =>
    cases path
    refine ⟨pc, held, ?_⟩
    by_cases own : fd = x <;> simp [own, acks, connection, received]
  | cons a rest ih =>
    obtain ⟨mid, moved, later⟩ := run_cons_iff.mp path
    obtain ⟨here, others⟩ := List.forall_mem_cons.mp fixed
    obtain ⟨next, there, first⟩ := step_acks held moved here x
    obtain ⟨last, end_, total⟩ := ih there later others
    refine ⟨last, end_, ?_⟩
    rw [connection_cons moved, acks, ofTag_append, List.count_append, ← acks, ← acks]
    rw [AckStep] at first
    by_cases own : fd = x
    · simp only [own, if_true] at first total ⊢
      rw [received, List.flatMap_cons, List.length_append, ← received]
      omega
    · simp only [own, if_false] at first total ⊢
      omega

/-- Sends without relays are acknowledgements. -/
theorem bytes_of_acks {sends : List ServerSend} (silent : relayed sends = []) :
    sends.map ServerSend.bytes = List.replicate (sends.count .ack) ackMessage := by
  induction sends with
  | nil => rfl
  | cons send rest ih =>
    cases send with
    | ack =>
      rw [List.map_cons, ih silent, List.count_cons_self, List.replicate_succ]
      rfl
    | relay text => cases silent

/-- Sends without acknowledgements are relays. -/
theorem bytes_of_relays {sends : List ServerSend} (unacked : sends.count .ack = 0) :
    sends.map ServerSend.bytes = relayed sends := by
  induction sends with
  | nil => rfl
  | cons send rest ih =>
    cases send with
    | ack => simp at unacked
    | relay text =>
      rw [List.map_cons, ih (by simpa using unacked)]
      rfl

/-- A TCP client with the run of its session. -/
structure Participant where
  attempt : ClientLifecycle.Attempt
  buffer : ByteString
  actions : List ClientSession.Action
  session : ClientSession.Session
  path : run ClientSession.step (ClientSession.start .tcp attempt buffer) actions = some session

namespace Participant

/-- The bytes the client's socket has taken. -/
def sent (p : Participant) : ByteString := ClientSession.sentBytes p.session.log

/-- The text the client has shown. -/
def shown (p : Participant) : ByteString := p.session.lines.flatMap ClientSession.lineText

end Participant

/-- A handler in its loop, between two messages. -/
def Serves (s : State) (c : Nat) (fd : Fd) : Prop := s.handler c = some ⟨fd, .loopTest⟩

/-- The client of handler `c` is `room c`. From `s` to `t` nobody joins or leaves; at both
ends the server is between two messages and nothing is under way. -/
structure Conversation (room : Nat → Participant) (s : State) (actions : List Action) (t : State) :
    Prop where
  path : run step s actions = some t
  fixed : ∀ a ∈ actions, changesList a = false
  distinct : s.tcpClients.live.Nodup
  listed : ∀ c fd, Serves s c fd → fd ∈ s.tcpClients.live
  own : ∀ c d fd, Serves s c fd → Serves s d fd → c = d
  begins : ∀ c h, s.handler c = some h → h.pc = .loopTest ∨ h.pc = .ended
  ends : ∀ c h, t.handler c = some h → h.pc = .loopTest ∨ h.pc = .ended
  uplink : ∀ c, (received c actions).flatten = (room c).sent
  downlink : ∀ c fd, Serves s c fd → (ClientSession.chunks (room c).actions).flatten =
    ((connection fd s actions).map fun p => p.2.bytes).flatten
  texts : ∀ c, 0 ∉ (room c).sent

/-- What client `b` has been shown is a merge of what every other client has sent, whole and
in order, and of one acknowledgement for each chunk of its own. -/
def ReadsEveryone (room : Nat → Participant) (s : State) (actions : List Action) (b : Nat) : Prop :=
  ∃ pieces : List (Nat × ByteString),
    (room b).shown = (pieces.map Prod.snd).flatten ∧
    (∀ p ∈ pieces, ∃ fd, Serves s p.1 fd) ∧
    (∀ c fd, Serves s c fd → c ≠ b → (ofTag c pieces).flatten = (room c).sent) ∧
    ofTag b pieces = List.replicate (received b actions).length ackMessage

section Conversation

variable {room : Nat → Participant} {s t : State} {actions : List Action}

theorem Conversation.serves_of_written (h : Conversation room s actions t) {x : Fd}
    {p : Nat × ServerSend} (written : p ∈ connection x s actions) : ∃ fd, Serves s p.1 fd := by
  by_contra absent
  have gone : Gone p.1 s := by
    cases held : s.handler p.1 with
    | none => exact Or.inl held
    | some k =>
      rcases h.begins p.1 k held with place | place
      · exact absurd ⟨k.clientSocket, by rw [Serves, held, ← place]⟩ absent
      · exact Or.inr ⟨k.clientSocket, by rw [held, ← place]⟩
  exact (ofTag_eq_nil_iff _ _).mp (gone_silent gone h.path h.fixed) p written rfl

/-- Nothing is held back at the end. -/
theorem Conversation.settled (h : Conversation room s actions t) {c : Nat} {fd : Fd}
    {pc : HandlerPc} (held : t.handler c = some ⟨fd, pc⟩) (x : Fd) :
    pending t.tcpClients x pc = [] ∧ unacked pc = 0 := by
  rcases h.ends c _ held with place | place
  · obtain rfl : pc = .loopTest := place
    exact ⟨rfl, rfl⟩
  · obtain rfl : pc = .ended := place
    exact ⟨rfl, rfl⟩

/-- The pieces of another client on the connection `x`. -/
theorem Conversation.relays_of (h : Conversation room s actions t) {c : Nat} {fd x : Fd}
    (serves : Serves s c fd) (listed : x ∈ s.tcpClients.live) (other : x ≠ fd) :
    (ofTag c (connection x s actions)).map ServerSend.bytes = (received c actions).map cString := by
  obtain ⟨pc, forwards⟩ := run_forwards h.distinct serves (whole_of_ne (by simp)) h.path h.fixed
  obtain ⟨pc', held, acked⟩ := run_acks serves h.path h.fixed x
  have account := forwards.others x listed other
  rw [(h.settled forwards.held x).1, List.append_nil, connection_relays h.path] at account
  rw [if_neg other.symm] at acked
  rw [bytes_of_relays acked]
  exact List.append_cancel_left account

/-- The pieces of the client itself are acknowledgements. -/
theorem Conversation.acks_of (h : Conversation room s actions t) {b : Nat} {x : Fd}
    (serves : Serves s b x) : (ofTag b (connection x s actions)).map ServerSend.bytes =
      List.replicate (received b actions).length ackMessage := by
  obtain ⟨pc, forwards⟩ := run_forwards h.distinct serves (whole_of_ne (by simp)) h.path h.fixed
  obtain ⟨pc', held, acked⟩ := run_acks serves h.path h.fixed x
  have account := forwards.own
  rw [connection_relays h.path, List.append_right_eq_self] at account
  rw [if_pos rfl, (h.settled held x).2, Nat.add_zero] at acked
  rw [bytes_of_acks account]
  change List.replicate (acks b (connection x s actions)) _ = _
  rw [acked]
  exact congrArg (List.replicate · ackMessage) (Nat.zero_add _)

/-- No NUL is written to a connection. -/
theorem Conversation.clean (h : Conversation room s actions t) {b : Nat} {x : Fd}
    (serves : Serves s b x) {p : Nat × ServerSend} (written : p ∈ connection x s actions) :
    0 ∉ p.2.bytes := by
  intro nul
  obtain ⟨fd, writer⟩ := h.serves_of_written written
  have mem : p.2.bytes ∈ (ofTag p.1 (connection x s actions)).map ServerSend.bytes :=
    List.mem_map_of_mem (List.mem_map.mpr ⟨p, List.mem_filter.mpr ⟨written, by simp⟩, rfl⟩)
  by_cases same : p.1 = b
  · rw [same, h.acks_of serves] at mem
    rw [(List.mem_replicate.mp mem).2] at nul
    exact absurd nul (by decide)
  · have other : x ≠ fd := by
      rintro rfl
      exact same (h.own p.1 b x writer serves)
    rw [h.relays_of writer (h.listed b x serves) other] at mem
    obtain ⟨chunk, received, text⟩ := List.mem_map.mp mem
    refine h.texts p.1 ?_
    rw [← h.uplink, List.mem_flatten]
    exact ⟨chunk, received, (List.takeWhile_sublist _).subset (text ▸ nul)⟩

theorem everyone_reads_everyone (h : Conversation room s actions t) {b : Nat} {x : Fd}
    (serves : Serves s b x) : ReadsEveryone room s actions b := by
  refine ⟨(connection x s actions).map fun p => (p.1, p.2.bytes), ?_, ?_, ?_, ?_⟩
  · have text := ClientSession.session_text (room b).path
    have nothing : (ClientSession.start .tcp (room b).attempt (room b).buffer).lines = [] := rfl
    rw [nothing, List.flatMap_nil, List.nil_append] at text
    have whole := (flatten_map_cString_eq_iff (ClientSession.chunks (room b).actions)).mpr ?_
    · rw [Participant.shown, text, whole, h.downlink b x serves, List.map_map]
      rfl
    · rw [h.downlink b x serves]
      intro nul
      obtain ⟨bytes, mem, inside⟩ := List.mem_flatten.mp nul
      obtain ⟨p, written, rfl⟩ := List.mem_map.mp mem
      exact h.clean serves written inside
  · intro q mem
    obtain ⟨p, written, rfl⟩ := List.mem_map.mp mem
    exact h.serves_of_written written
  · intro c fd writer different
    have other : x ≠ fd := by
      rintro rfl
      exact different (h.own c b x writer serves)
    rw [ofTag_map, h.relays_of writer (h.listed b x serves) other,
      (flatten_map_cString_eq_iff _).mpr (by rw [h.uplink]; exact h.texts c), h.uplink]
  · rw [ofTag_map, h.acks_of serves]

end Conversation

/-- Two clients talk at once: the second is served while the first is being relayed. -/
def conversing : List Action :=
  [.handler 0 .test, .handler 1 .test, .handler 0 (.recv [104, 105]), .handler 1 (.recv [33]),
   .handler 0 .ack, .handler 1 .ack, .handler 0 .beginBroadcast, .handler 1 .beginBroadcast,
   .handler 1 .relay, .handler 0 .relay, .handler 0 .relay, .handler 0 .endBroadcast,
   .handler 1 .relay, .handler 1 .endBroadcast]

/-- The first client receives its acknowledgement in two pieces, the second with the other's
text glued to it. -/
def talkers (c : Nat) : List ClientSession.Action :=
  match c with
  | 0 => [.line [104, 105], .send (some 2), .receiver, .receiver, .receive (.bytes [79]),
      .receiver, .receiver, .receiver, .receive (.bytes [75, 33])]
  | 1 => [.line [33], .send (some 1), .receiver, .receiver, .receive (.bytes [79, 75, 104, 105])]
  | _ => []

def talker (c : Nat) : Participant :=
  match c with
  | 0 => ⟨⟨some 3, true, true⟩, [], talkers 0, _, rfl⟩
  | 1 => ⟨⟨some 3, true, true⟩, [], talkers 1, _, rfl⟩
  | _ => ⟨⟨some 3, true, true⟩, [], [], _, rfl⟩

/-- Where the run of the two clients starts and ends, and what it writes. -/
theorem conversing_run : ∃ s t, run step initial connects = some s ∧
    run step s conversing = some t ∧ s.tcpClients.live = [4, 5] ∧
    (s.handler 0 = some ⟨4, .loopTest⟩ ∧ s.handler 1 = some ⟨5, .loopTest⟩ ∧
      ∀ c, s.handler (c + 2) = none) ∧
    (t.handler 0 = some ⟨4, .loopTest⟩ ∧ t.handler 1 = some ⟨5, .loopTest⟩ ∧
      ∀ c, t.handler (c + 2) = none) ∧
    connection 4 s conversing = [(0, .ack), (1, .relay [33])] ∧
    connection 5 s conversing = [(1, .ack), (0, .relay [104, 105])] :=
  ⟨_, _, rfl, rfl, rfl, ⟨rfl, rfl, fun _ => rfl⟩, ⟨rfl, rfl, fun _ => rfl⟩, rfl, rfl⟩

theorem everyone_reads_everyone_conversing :
    ∃ s, run step initial connects = some s ∧ (talker 1).shown = [79, 75, 104, 105] ∧
      ReadsEveryone talker s conversing 1 := by
  obtain ⟨s, t, joined, path, live, ⟨first, second, others⟩, ⟨first', second', others'⟩, to_first,
    to_second⟩ := conversing_run
  have handlers : ∀ c fd, Serves s c fd → c = 0 ∧ fd = 4 ∨ c = 1 ∧ fd = 5 := by
    intro c fd serves
    match c with
    | 0 =>
      rw [Serves, first, Option.some.injEq, Handler.mk.injEq] at serves
      exact Or.inl ⟨rfl, serves.1.symm⟩
    | 1 =>
      rw [Serves, second, Option.some.injEq, Handler.mk.injEq] at serves
      exact Or.inr ⟨rfl, serves.1.symm⟩
    | c + 2 =>
      rw [Serves, others] at serves
      cases serves
  have between : ∀ {u : State}, u.handler 0 = some ⟨4, .loopTest⟩ →
      u.handler 1 = some ⟨5, .loopTest⟩ → (∀ c, u.handler (c + 2) = none) →
        ∀ c h, u.handler c = some h → h.pc = .loopTest := by
    intro u first second others c h held
    match c with
    | 0 => exact Option.some.inj (first.symm.trans held) ▸ rfl
    | 1 => exact Option.some.inj (second.symm.trans held) ▸ rfl
    | c + 2 =>
      rw [others] at held
      cases held
  have talk : Conversation talker s conversing t := by
    constructor
    case path => exact path
    case fixed => decide
    case distinct => rw [live]; decide
    case listed =>
      intro c fd serves
      rw [live]
      rcases handlers c fd serves with ⟨_, rfl⟩ | ⟨_, rfl⟩ <;> simp
    case own =>
      intro c d fd hc hd
      rcases handlers c fd hc with ⟨rfl, rfl⟩ | ⟨rfl, rfl⟩ <;>
        rcases handlers d _ hd with ⟨rfl, h⟩ | ⟨rfl, h⟩ <;> first | rfl | cases h
    case begins => exact fun c h held => Or.inl (between first second others c h held)
    case ends => exact fun c h held => Or.inl (between first' second' others' c h held)
    case uplink =>
      intro c
      match c with
      | 0 => rfl
      | 1 => rfl
      | c + 2 =>
        have idle : received (c + 2) conversing = [] := by simp [received, conversing, chunkOf]
        rw [idle]
        rfl
    case downlink =>
      intro c fd serves
      rcases handlers c fd serves with ⟨rfl, rfl⟩ | ⟨rfl, rfl⟩
      · rw [to_first]
        rfl
      · rw [to_second]
        rfl
    case texts =>
      intro c
      match c with
      | 0 =>
        change 0 ∉ [(104 : UInt8), 105]
        simp
      | 1 =>
        change 0 ∉ [(33 : UInt8)]
        simp
      | c + 2 => exact List.not_mem_nil
  exact ⟨s, joined, rfl, everyone_reads_everyone talk second⟩

end ChatRoom
