import Cursov.Broadcast
import Cursov.ChatStream

/-!
# What reaches the other clients

While nobody joins or leaves the list, a handler relays chunk after chunk to every
other listed client, whatever the other threads do in between. What it has relayed
to a client and what it still holds for that client make up what it has received.
-/

namespace ChatRelay

open Bytes Transition Server ChatStream

/-- The texts that handler `c` has sent to the number `x`, in the order sent. -/
def relayedTo (c : Nat) (x : Fd) (s : State) : List ByteString :=
  (s.relays.filter fun r => r.sender = c ∧ r.client = x).map Relay.message

def chunkOf (c : Nat) : Action → List ByteString
  | .handler d (.recv chunk) => if d = c then [chunk] else []
  | _ => []

/-- The chunks that `recv` returns to handler `c` during a run. -/
def received (c : Nat) (actions : List Action) : List ByteString := actions.flatMap (chunkOf c)

/-- The step adds to the list of clients or removes from it. -/
def changesList : Action → Bool
  | .listener .pushBack => true
  | .handler _ .erase => true
  | .control .clearClients => true
  | _ => false

/-- What a handler at `pc` has received and not yet sent to `x`. -/
def pending (clients : SlotVector Fd) (x : Fd) : HandlerPc → List ByteString
  | .received buffer => [cString (buffer ++ [0])]
  | .acked buffer => [cString (buffer ++ [0])]
  | .relaying message cursor stop => if x ∈ clients.window cursor stop then [message] else []
  | _ => []

/-- A loop at `pc` goes over the whole list. -/
def Whole (clients : SlotVector Fd) (pc : HandlerPc) : Prop :=
  ∀ message cursor stop, pc = .relaying message cursor stop → stop = clients.size

/-- From `s`, where handler `c` stands at `pc`, to `t`, where it stands at `pc'`, it has
received `chunks` and nothing is lost, added or reordered on the way to the others. -/
structure Forwards (c : Nat) (fd : Fd) (chunks : List ByteString) (s : State) (pc : HandlerPc)
    (t : State) (pc' : HandlerPc) : Prop where
  held : t.handler c = some ⟨fd, pc'⟩
  clients : t.tcpClients = s.tcpClients
  whole : Whole t.tcpClients pc'
  own : relayedTo c fd t = relayedTo c fd s
  others : ∀ x ∈ s.tcpClients.live, x ≠ fd →
    relayedTo c x t ++ pending t.tcpClients x pc' =
      relayedTo c x s ++ (pending s.tcpClients x pc ++ chunks.map cString)

theorem Forwards.refl {c : Nat} {fd : Fd} {s : State} {pc : HandlerPc}
    (held : s.handler c = some ⟨fd, pc⟩) (whole : Whole s.tcpClients pc) :
    Forwards c fd [] s pc s pc :=
  ⟨held, rfl, whole, rfl, fun x _ _ => by rw [List.map_nil, List.append_nil]⟩

theorem Forwards.trans {c : Nat} {fd : Fd} {first later : List ByteString} {s t u : State}
    {pc pc' pc'' : HandlerPc} (start : Forwards c fd first s pc t pc')
    (onward : Forwards c fd later t pc' u pc'') :
    Forwards c fd (first ++ later) s pc u pc'' := by
  refine ⟨onward.held, onward.clients.trans start.clients, onward.whole,
    onward.own.trans start.own, fun x listed other => ?_⟩
  have mid := start.others x listed other
  have last := onward.others x (start.clients ▸ listed) other
  rw [last, ← List.append_assoc, mid, List.map_append, List.append_assoc, List.append_assoc]

theorem relayedTo_append (c : Nat) (x : Fd) (s : State) (r : Server.Relay) :
    relayedTo c x { s with relays := s.relays ++ [r] } =
      relayedTo c x s ++ if r.sender = c ∧ r.client = x then [r.message] else [] := by
  rw [relayedTo, List.filter_append, List.map_append, ← relayedTo]
  by_cases mine : r.sender = c ∧ r.client = x
  · simp [mine]
  · simp [mine]

/-- A step after which the handler stands where it stood, and has sent nothing more. -/
theorem Forwards.unmoved {c : Nat} {fd : Fd} {s t : State} {pc : HandlerPc}
    (held : s.handler c = some ⟨fd, pc⟩) (whole : Whole s.tcpClients pc)
    (handler : t.handler c = s.handler c) (clients : t.tcpClients = s.tcpClients)
    (silent : ∀ x, relayedTo c x t = relayedTo c x s) : Forwards c fd [] s pc t pc := by
  refine ⟨handler.trans held, clients, clients ▸ whole, silent fd, fun x _ _ => ?_⟩
  rw [silent, clients, List.map_nil, List.append_nil]

/-- A step of the handler itself that sends nothing. -/
theorem Forwards.quiet {c : Nat} {fd : Fd} {chunks : List ByteString} {s t : State}
    {pc pc' : HandlerPc} (held : t.handler c = some ⟨fd, pc'⟩)
    (clients : t.tcpClients = s.tcpClients) (relays : t.relays = s.relays)
    (whole : Whole s.tcpClients pc')
    (holds : ∀ x ∈ s.tcpClients.live, pending s.tcpClients x pc' =
      pending s.tcpClients x pc ++ chunks.map cString) : Forwards c fd chunks s pc t pc' := by
  have silent : ∀ x, relayedTo c x t = relayedTo c x s := by
    intro x
    rw [relayedTo, relays, ← relayedTo]
  refine ⟨held, clients, clients ▸ whole, silent fd, fun x listed _ => ?_⟩
  rw [silent, clients, holds x listed]

/-- One iteration of the loop sends to the client at the cursor, unless it is the sender. -/
theorem relayedTo_iteration (c : Nat) (fd x client : Fd) (s : State) (message : ByteString) :
    relayedTo c x { s with
        relays := if client ≠ fd then s.relays ++ [⟨c, client, message⟩] else s.relays } =
      relayedTo c x s ++ if client ≠ fd ∧ client = x then [message] else [] := by
  by_cases own : client = fd
  · rw [if_neg (fun other => other own), if_neg fun both => both.1 own, List.append_nil]
  · rw [if_pos own, relayedTo_append]
    simp [own]

theorem relay_forwards {c : Nat} {fd : Fd} {s t : State} {message : ByteString}
    {cursor stop : Nat} (distinct : s.tcpClients.live.Nodup)
    (held : s.handler c = some ⟨fd, .relaying message cursor stop⟩)
    (whole : Whole s.tcpClients (.relaying message cursor stop))
    (moved : step s (.handler c .relay) = some t) :
    Forwards c fd [] s (.relaying message cursor stop) t
      (.relaying message (cursor + 1) stop) := by
  rw [step, handlerStep, held, Option.bind_some] at moved
  simp only [handlerMove, Option.ite_none_right_eq_some, Option.map_eq_some_iff] at moved
  obtain ⟨ahead, client, slot, rfl⟩ := moved
  obtain rfl := whole message cursor stop rfl
  have window := SlotVector.window_cons ahead slot
  have apart : client ∉ s.tcpClients.window (cursor + 1) s.tcpClients.size := by
    have rest : (s.tcpClients.window cursor s.tcpClients.size).Nodup :=
      distinct.sublist (List.drop_sublist cursor _)
    rw [window] at rest
    exact (List.nodup_cons.mp rest).1
  have sent := fun x => relayedTo_iteration c fd x client (s.goto c
    ⟨fd, .relaying message cursor s.tcpClients.size⟩
    (.relaying message (cursor + 1) s.tcpClients.size)) message
  refine ⟨handler_goto _ _ _ _, rfl, ?_, ?_, fun x _ other => ?_⟩
  · rintro _ _ _ ⟨⟩
    rfl
  · refine (sent fd).trans ?_
    rw [if_neg fun both => both.1 both.2, List.append_nil]
    rfl
  · refine (congrArg (· ++ _) (sent x)).trans ?_
    change relayedTo c x s ++ _ ++ pending s.tcpClients x _ = _
    simp only [pending, window, List.mem_cons, List.map_nil, List.append_nil]
    by_cases here : client = x
    · subst x
      simp [apart, other]
    · simp [here, Ne.symm here]

/-- The places outside the broadcast loop. -/
theorem whole_of_ne {clients : SlotVector Fd} {pc : HandlerPc}
    (outside : ∀ message cursor stop, pc ≠ .relaying message cursor stop) : Whole clients pc :=
  fun message cursor stop here => absurd here (outside message cursor stop)

/-- A move of the handler from `pc` to `pc'` that changes nothing else. -/
theorem goto_forwards {c : Nat} {fd : Fd} {chunks : List ByteString} {s : State}
    {pc pc' : HandlerPc} (whole : Whole s.tcpClients pc')
    (holds : ∀ x ∈ s.tcpClients.live, pending s.tcpClients x pc' =
      pending s.tcpClients x pc ++ chunks.map cString) :
    Forwards c fd chunks s pc (s.goto c ⟨fd, pc⟩ pc') pc' :=
  .quiet (handler_goto s c ⟨fd, pc⟩ pc') rfl rfl whole holds

theorem own_forwards {c : Nat} {fd : Fd} {s t : State} {pc : HandlerPc} {a : HandlerAction}
    (distinct : s.tcpClients.live.Nodup) (held : s.handler c = some ⟨fd, pc⟩)
    (whole : Whole s.tcpClients pc) (moved : step s (.handler c a) = some t)
    (fixed : changesList (.handler c a) = false) :
    ∃ pc', Forwards c fd (chunkOf c (.handler c a)) s pc t pc' := by
  have place : handlerMove s c ⟨fd, pc⟩ pc a = some t := by
    rwa [step, handlerStep, held, Option.bind_some] at moved
  cases a with
  | test =>
    cases pc with
    | loopTest =>
      cases place
      refine ⟨_, goto_forwards (whole_of_ne ?_) fun x _ => ?_⟩
      · cases s.isRunning <;> rintro _ _ _ ⟨⟩
      · cases s.isRunning <;> rfl
    | _ => cases place
  | recv chunk =>
    cases pc with
    | receiving =>
      have received : t = s.goto c ⟨fd, .receiving⟩ (.received chunk) := by
        simp only [handlerMove] at place
        split at place
        · simp only [Option.ite_none_right_eq_some, Option.some.injEq] at place
          exact place.2.symm
        · cases place
      subst t
      refine ⟨_, goto_forwards (whole_of_ne (by simp)) fun x _ => ?_⟩
      rw [chunkOf, if_pos rfl, pending, cString_append_nul]
      rfl
    | _ => cases place
  | recvFails =>
    cases pc with
    | receiving =>
      cases place
      exact ⟨_, goto_forwards (whole_of_ne (by simp)) fun x _ => rfl⟩
    | _ => cases place
  | ack =>
    cases pc with
    | received buffer =>
      cases place
      exact ⟨_, goto_forwards (whole_of_ne (by simp)) fun x _ => rfl⟩
    | _ => cases place
  | beginBroadcast =>
    cases pc with
    | acked buffer =>
      cases place
      refine ⟨_, goto_forwards ?_ fun x listed => ?_⟩
      · rintro _ _ _ ⟨⟩
        rfl
      · exact if_pos (SlotVector.window_zero_size s.tcpClients ▸ listed)
    | _ => cases place
  | relay =>
    cases pc with
    | relaying message cursor stop => exact ⟨_, relay_forwards distinct held whole moved⟩
    | _ => cases place
  | endBroadcast =>
    cases pc with
    | relaying message cursor stop =>
      simp only [handlerMove, Option.ite_none_left_eq_some, Option.some.injEq] at place
      obtain ⟨finished, rfl⟩ := place
      refine ⟨_, goto_forwards (whole_of_ne (by simp)) fun x _ => ?_⟩
      rw [pending, SlotVector.window_eq_nil (Nat.le_of_not_lt finished), if_neg List.not_mem_nil]
      rfl
    | _ => cases place
  | close =>
    cases pc with
    | leaving =>
      cases place
      exact ⟨_, .quiet (handler_goto _ c ⟨fd, .leaving⟩ .closed) rfl rfl (whole_of_ne (by simp))
        fun x _ => rfl⟩
    | _ => cases place
  | erase => cases fixed

/-- A step of another thread sends nothing in the name of handler `c`. -/
theorem other_forwards {c : Nat} {fd : Fd} {s t : State} {pc : HandlerPc} {a : Action}
    (held : s.handler c = some ⟨fd, pc⟩) (whole : Whole s.tcpClients pc)
    (other : ∀ b, a ≠ .handler c b) (moved : step s a = some t) (fixed : changesList a = false) :
    Forwards c fd (chunkOf c a) s pc t pc := by
  cases a with
  | control a =>
    have frame := controlStep_frame moved
    have clients : t.tcpClients = s.tcpClients := by
      rcases frame.clients with same | ⟨rfl, _⟩
      · exact same
      · cases fixed
    refine .unmoved held whole (congrFun frame.handler c) clients fun x => ?_
    rw [relayedTo, frame.relays, ← relayedTo]
  | listener a =>
    cases listenerStep_effect moved with
    | moves _ pc' present before after => exact .unmoved held whole rfl rfl fun x => rfl
    | accepts y waiting free => exact .unmoved held whole rfl rfl fun x => rfl
    | adopts d y waiting => cases fixed
  | handler d a =>
    have apart : c ≠ d := fun same => other a (same ▸ rfl)
    have nothing : chunkOf c (.handler d a) = [] := by
      cases a <;> first | rfl | exact if_neg apart.symm
    rw [nothing]
    obtain ⟨h, _, effect⟩ := handlerStep_effect moved
    cases effect with
    | moves _ pc' relays running alive sends looped =>
      refine .unmoved held whole (handler_goto_of_ne s h pc' apart) rfl fun x => ?_
      rcases sends with rfl | ⟨client, text, rfl⟩
      · rfl
      · have more := relayedTo_append c x s ⟨d, client, text⟩
        rwa [if_neg fun both => apart both.1.symm, List.append_nil] at more
    | closes leaving =>
      exact .unmoved held whole (handler_goto_of_ne _ h .closed apart) rfl fun x => rfl
    | erases closed => cases fixed

theorem run_forwards {c : Nat} {fd : Fd} {actions : List Action} {s t : State} {pc : HandlerPc}
    (distinct : s.tcpClients.live.Nodup) (held : s.handler c = some ⟨fd, pc⟩)
    (whole : Whole s.tcpClients pc) (path : run step s actions = some t)
    (fixed : ∀ a ∈ actions, changesList a = false) :
    ∃ pc', Forwards c fd (received c actions) s pc t pc' := by
  induction actions generalizing s pc with
  | nil =>
    cases path
    exact ⟨pc, .refl held whole⟩
  | cons a rest ih =>
    obtain ⟨mid, moved, onward⟩ := run_cons_iff.mp path
    obtain ⟨here, later⟩ := List.forall_mem_cons.mp fixed
    obtain ⟨next, first⟩ : ∃ next, Forwards c fd (chunkOf c a) s pc mid next := by
      by_cases mine : ∃ b, a = .handler c b
      · obtain ⟨b, rfl⟩ := mine
        exact own_forwards distinct held whole moved here
      · exact ⟨pc, other_forwards held whole (fun b same => mine ⟨b, same⟩) moved here⟩
    obtain ⟨last, others⟩ :=
      ih (first.clients ▸ distinct) first.held first.whole onward later
    exact ⟨last, first.trans others⟩

/-- What handler `c` has sent to `x` between two states. -/
def forwarded (c : Nat) (x : Fd) (s t : State) : List ByteString :=
  (relayedTo c x t).drop (relayedTo c x s).length

/-- From one `loopTest` to another every other client has been sent what the handler of
that client alone would broadcast. -/
theorem forwarded_eq_broadcasts {c : Nat} {fd : Fd} {actions : List Action} {s t : State}
    (distinct : s.tcpClients.live.Nodup) (begins : s.handler c = some ⟨fd, .loopTest⟩)
    (ends : t.handler c = some ⟨fd, .loopTest⟩) (path : run step s actions = some t)
    (fixed : ∀ a ∈ actions, changesList a = false) :
    forwarded c fd s t = [] ∧ ∀ x ∈ s.tcpClients.live, x ≠ fd → ∀ buffer,
      forwarded c x s t = broadcasts (handleTcpClient buffer (received c actions)) := by
  obtain ⟨pc, forwards⟩ := run_forwards distinct begins (whole_of_ne (by simp)) path fixed
  obtain rfl : pc = .loopTest := by
    have same := forwards.held.symm.trans ends
    simpa using same
  refine ⟨?_, fun x listed other buffer => ?_⟩
  · rw [forwarded, forwards.own, List.drop_length]
  · have account := forwards.others x listed other
    simp only [pending, List.append_nil, List.nil_append] at account
    rw [forwarded, account, List.drop_left, handleTcpClient_eq_framed, broadcasts_framed]

/-- The relayed chunks add up to the chunks exactly when no byte of them is NUL. -/
theorem flatten_map_cString_eq_iff (chunks : List ByteString) :
    (chunks.map cString).flatten = chunks.flatten ↔ 0 ∉ chunks.flatten := by
  have shrinks : ∀ text : ByteString, (cString text).length ≤ text.length :=
    fun text => (List.takeWhile_sublist _).length_le
  have total : ∀ texts : List ByteString,
      (texts.map cString).flatten.length ≤ texts.flatten.length := by
    intro texts
    induction texts with
    | nil => exact Nat.le_refl 0
    | cons text rest ih =>
      simp only [List.map_cons, List.flatten_cons, List.length_append]
      exact Nat.add_le_add (shrinks text) ih
  induction chunks with
  | nil => simp
  | cons chunk rest ih =>
    rw [List.map_cons, List.flatten_cons, List.flatten_cons, List.mem_append, not_or]
    constructor
    · intro same
      have lengths := congrArg List.length same
      simp only [List.length_append] at lengths
      have first := shrinks chunk
      have others := total rest
      obtain ⟨here, after⟩ := List.append_inj same (by omega)
      exact ⟨(cString_eq_self_iff chunk).mp here, ih.mp after⟩
    · rintro ⟨here, after⟩
      rw [(cString_eq_self_iff chunk).mpr here, ih.mpr after]

/-- From `s` to `t` every other listed client has been sent exactly the bytes `sent`, and
the sender nothing of them. -/
def Faithful (c : Nat) (fd : Fd) (sent : ByteString) (s t : State) : Prop :=
  (∀ x ∈ s.tcpClients.live, x ≠ fd → (forwarded c x s t).flatten = sent) ∧
    forwarded c fd s t = []

/-- With fixed membership the relay is faithful exactly when the bytes hold no NUL or there
is nobody to relay them to. -/
theorem faithful_iff_no_nul {c : Nat} {fd : Fd} {actions : List Action} {s t : State}
    (distinct : s.tcpClients.live.Nodup) (begins : s.handler c = some ⟨fd, .loopTest⟩)
    (ends : t.handler c = some ⟨fd, .loopTest⟩) (path : run step s actions = some t)
    (fixed : ∀ a ∈ actions, changesList a = false) :
    Faithful c fd (received c actions).flatten s t ↔
      0 ∉ (received c actions).flatten ∨ ∀ x ∈ s.tcpClients.live, x = fd := by
  obtain ⟨own, others⟩ := forwarded_eq_broadcasts distinct begins ends path fixed
  have texts : ∀ x ∈ s.tcpClients.live, x ≠ fd →
      forwarded c x s t = (received c actions).map cString := by
    intro x listed other
    rw [others x listed other [], handleTcpClient_eq_framed, broadcasts_framed]
  constructor
  · rintro ⟨relayed, _⟩
    by_cases alone : ∀ x ∈ s.tcpClients.live, x = fd
    · exact Or.inr alone
    · obtain ⟨x, listed, other⟩ : ∃ x ∈ s.tcpClients.live, x ≠ fd := by
        simpa using alone
      have same := relayed x listed other
      rw [texts x listed other, flatten_map_cString_eq_iff] at same
      exact Or.inl same
  · intro condition
    refine ⟨fun x listed other => ?_, own⟩
    rcases condition with clean | alone
    · rw [texts x listed other]
      exact (flatten_map_cString_eq_iff _).mpr clean
    · exact absurd (alone x listed) other

/-- Two clients connect; the handler of the first serves two chunks while the second client
is served in between. -/
def serving (chunk later : ByteString) : List Action :=
  [.handler 0 .test, .handler 0 (.recv chunk), .handler 1 .test, .handler 0 .ack,
   .handler 0 .beginBroadcast, .handler 0 .relay, .handler 1 (.recv [33]), .handler 0 .relay,
   .handler 0 .endBroadcast, .handler 0 .test, .handler 0 (.recv later), .handler 1 .ack,
   .handler 0 .ack, .handler 0 .beginBroadcast, .handler 0 .relay, .handler 0 .relay,
   .handler 0 .endBroadcast]

def connects : List Action :=
  [.control (.start 3)] ++ [4, 5].flatMap fun fd =>
    [.listener .test, .listener (.accept fd), .listener .pushBack]

theorem faithful_interleaved :
    ∃ s t, run step initial connects = some s ∧
      run step s (serving [104, 105] [255]) = some t ∧ Faithful 0 4 [104, 105, 255] s t := by
  obtain ⟨s, path⟩ : ∃ s, run step initial connects = some s := ⟨_, rfl⟩
  obtain ⟨t, served⟩ : ∃ t, run step s (serving [104, 105] [255]) = some t := by
    cases path
    exact ⟨_, rfl⟩
  refine ⟨s, t, path, served, ?_⟩
  have distinct : s.tcpClients.live.Nodup := by
    cases path
    decide
  have begins : s.handler 0 = some ⟨4, .loopTest⟩ := by
    cases path
    rfl
  have ends : t.handler 0 = some ⟨4, .loopTest⟩ := by
    cases path
    cases served
    rfl
  exact (faithful_iff_no_nul distinct begins ends served (by decide)).mpr (Or.inl (by decide))

/-- Of the chunk h, NUL, i the other client gets the h. -/
theorem nul_cuts_chunk :
    ∃ s t, run step initial connects = some s ∧
      run step s (serving [104, 0, 105] [33]) = some t ∧
      forwarded 0 5 s t = [[104], [33]] ∧ ¬ Faithful 0 4 [104, 0, 105, 33] s t := by
  refine ⟨_, _, rfl, rfl, by decide, ?_⟩
  rintro ⟨relayed, _⟩
  have cut := relayed 5 (by decide) (by decide)
  revert cut
  decide

end ChatRelay
