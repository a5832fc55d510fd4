import Cursov.Server
import Mathlib.Data.List.Nodup

/-!
# The broadcast loop over a list that others change

The range-for of `broadcast_tcp` walks the positions it fixed when it began, while
connects and disconnects move the numbers between them. What is sent to a number
and the copies of it still ahead of the loop change together; only the list
operations of the other threads bring copies in or take them out.
-/

namespace Broadcast

open Server Transition Bytes

/-- The copies of `x` at the positions that are still ahead of the loop of handler `c`. -/
def ahead (c : Nat) (x : Fd) (s : State) : Nat :=
  match s.handler c with
  | some ⟨_, .relaying _ cursor stop⟩ => (s.tcpClients.window cursor stop).count x
  | _ => 0

/-- How often handler `c` has sent `message` to the number `x`. -/
def sent (c : Nat) (message : ByteString) (x : Fd) (s : State) : Nat :=
  s.relays.count ⟨c, x, message⟩

def isRelay (c : Nat) : Action → Bool
  | .handler d .relay => d = c
  | _ => false

/-- The copies of `x` that the steps of the other threads bring to the positions ahead of
the loop of `c`, less those they take away. -/
def drift (c : Nat) (x : Fd) : State → List Action → Int
  | _, [] => 0
  | s, a :: rest =>
    match step s a with
    | none => 0
    | some t =>
      (if isRelay c a then 0 else (ahead c x t : Int) - ahead c x s) + drift c x t rest

/-- The thread of connection `c` is in the loop, with its end position fixed at `stop`. -/
def InLoop (c : Nat) (fd : Fd) (message : ByteString) (cursor stop : Nat) (s : State) : Prop :=
  s.handler c = some ⟨fd, .relaying message cursor stop⟩

theorem isRelay_iff {c : Nat} {a : Action} : isRelay c a = true ↔ a = .handler c .relay := by
  cases a with
  | handler d a => cases a <;> simp [isRelay]
  | _ => simp [isRelay]

def endsLoop (c : Nat) : Action → Bool
  | .handler d .endBroadcast => d = c
  | _ => false

theorem ahead_eq {c : Nat} {fd : Fd} {message : ByteString} {cursor stop : Nat} {s : State}
    (here : InLoop c fd message cursor stop s) (x : Fd) :
    ahead c x s = (s.tcpClients.window cursor stop).count x := by
  rw [ahead, here]

theorem count_append_of_ne {relays : List Relay} {r new : Relay} (other : new ≠ r) :
    (relays ++ [new]).count r = relays.count r := by
  rw [List.count_append, List.count_singleton, if_neg (by simpa using other), Nat.add_zero]

/-- One iteration: the number at the cursor leaves the positions ahead, and is sent the
message unless it is the sender's own. -/
theorem relay_step {c : Nat} {fd : Fd} {message : ByteString} {cursor stop : Nat} {s t : State}
    (here : InLoop c fd message cursor stop s) (moved : step s (.handler c .relay) = some t) :
    InLoop c fd message (cursor + 1) stop t ∧ sent c message fd t = sent c message fd s ∧
      ∀ x, x ≠ fd → sent c message x t + ahead c x t = sent c message x s + ahead c x s := by
  obtain ⟨h, held, moved⟩ := Option.bind_eq_some_iff.mp moved
  obtain rfl := Option.some.inj (held.symm.trans here)
  simp only [handlerMove, Option.ite_none_right_eq_some, Option.map_eq_some_iff] at moved
  obtain ⟨more, client, slot, rfl⟩ := moved
  have next := handler_goto s c ⟨fd, .relaying message cursor stop⟩
    (.relaying message (cursor + 1) stop)
  refine ⟨next, ?_, fun x hx => ?_⟩
  · by_cases own : client ≠ fd
    · simp only [sent, if_pos own]
      exact count_append_of_ne (by simp [own])
    · simp only [sent, if_neg own]
  · have later : ∀ relays, ahead c x
        { s.goto c ⟨fd, .relaying message cursor stop⟩ (.relaying message (cursor + 1) stop) with
          relays := relays } = (s.tcpClients.window (cursor + 1) stop).count x :=
      fun relays => ahead_eq next x
    rw [later, ahead_eq here, SlotVector.window_cons more slot]
    by_cases same : client = x
    · subst x
      simp only [sent, if_pos hx, List.count_append, List.count_cons_self, List.count_nil]
      omega
    · rw [List.count_cons_of_ne same]
      by_cases own : client ≠ fd
      · simp only [sent, if_pos own]
        rw [count_append_of_ne (by simp [same])]
      · simp only [sent, if_neg own]

/-- A step of any other thread leaves the loop where it is and sends nothing for it. -/
theorem other_step {c : Nat} {fd : Fd} {message : ByteString} {cursor stop : Nat} {s t : State}
    {a : Action} (numbered : Numbered s) (here : InLoop c fd message cursor stop s)
    (moved : step s a = some t) (not_relay : isRelay c a = false)
    (not_end : endsLoop c a = false) :
    InLoop c fd message cursor stop t ∧ ∀ x, sent c message x t = sent c message x s := by
  cases a with
  | control a =>
    have frame := controlStep_frame moved
    exact ⟨(congrFun frame.handler c).trans here, fun x => by rw [sent, sent, frame.relays]⟩
  | listener a =>
    cases listenerStep_effect moved with
    | moves _ pc present before after => exact ⟨here, fun x => rfl⟩
    | accepts x waiting free => exact ⟨here, fun x => rfl⟩
    | adopts d x waiting =>
      have other : c ≠ d := by
        rintro rfl
        cases (numbered.pending c x waiting).2.symm.trans here
      exact ⟨(Function.update_of_ne other _ _).trans here, fun x => rfl⟩
  | handler d a =>
    have other : c ≠ d := by
      rintro rfl
      obtain ⟨h, held, moved⟩ := Option.bind_eq_some_iff.mp moved
      obtain rfl := Option.some.inj (held.symm.trans here)
      cases a <;> simp_all [handlerMove, isRelay, endsLoop]
    obtain ⟨h, held, effect⟩ := handlerStep_effect moved
    cases effect with
    | moves _ pc relays running alive sends fixed =>
      refine ⟨(handler_goto_of_ne s h pc other).trans here, fun x => ?_⟩
      rcases sends with rfl | ⟨client, text, rfl⟩
      · rfl
      · exact count_append_of_ne (by simp [other.symm])
    | closes leaving => exact ⟨(handler_goto_of_ne _ h .closed other).trans here, fun x => rfl⟩
    | erases closed => exact ⟨(handler_goto_of_ne s h .ended other).trans here, fun x => rfl⟩

/-- While the loop runs, what it has sent and what is ahead of it add up to what was there
when it began and what the other threads have moved. -/
theorem loop_account {c : Nat} {fd : Fd} {message : ByteString} {stop : Nat}
    {actions : List Action} {cursor : Nat} {s t : State} (numbered : Numbered s)
    (here : InLoop c fd message cursor stop s) (path : run step s actions = some t)
    (inside : ∀ a ∈ actions, endsLoop c a = false) :
    (∃ later, InLoop c fd message later stop t) ∧ sent c message fd t = sent c message fd s ∧
      ∀ x, x ≠ fd → (sent c message x t : Int) + ahead c x t =
        sent c message x s + ahead c x s + drift c x s actions := by
  induction actions generalizing s cursor with
  | nil =>
    cases path
    exact ⟨⟨cursor, here⟩, rfl, fun x _ => by simp [drift]⟩
  | cons a rest ih =>
    obtain ⟨mid, moved, onward⟩ := run_cons_iff.mp path
    have tail : ∀ b ∈ rest, endsLoop c b = false := fun b hb =>
      inside b (List.mem_cons_of_mem a hb)
    have apart := step_numbered s a mid numbered moved
    by_cases relays : isRelay c a = true
    · obtain rfl := isRelay_iff.mp relays
      obtain ⟨next, own, moves⟩ := relay_step here moved
      obtain ⟨ends, silent, total⟩ := ih apart next onward tail
      refine ⟨ends, silent.trans own, fun x hx => ?_⟩
      have first := moves x hx
      have later := total x hx
      simp only [drift, moved, relays, if_true]
      omega
    · rw [Bool.not_eq_true] at relays
      obtain ⟨next, same⟩ := other_step numbered here moved relays (inside a List.mem_cons_self)
      obtain ⟨ends, silent, total⟩ := ih apart next onward tail
      refine ⟨ends, silent.trans (same fd), fun x hx => ?_⟩
      have first := same x
      have later := total x hx
      simp only [drift, moved, relays]
      simp only [Bool.false_eq_true, if_false]
      omega

/-- The steps of all threads during one loop of handler `c`, and the end of the loop. -/
def wholeLoop (c : Nat) (actions : List Action) : List Action :=
  actions ++ [.handler c .endBroadcast]

/-- The number is in the list from the start of the loop to its end. -/
def Stays (c : Nat) (x : Fd) (s : State) (actions : List Action) : Prop :=
  Along step (fun s _ => x ∈ s.tcpClients.live) s (wholeLoop c actions)

instance staysDecidable (c : Nat) (x : Fd) (s : State) (actions : List Action) :
    Decidable (Stays c x s actions) :=
  inferInstanceAs (Decidable (Along step _ s (wholeLoop c actions)))

theorem stays_listed {c : Nat} {x : Fd} {s : State} {actions : List Action}
    (stays : Stays c x s actions) : x ∈ s.tcpClients.live := by
  cases actions with
  | nil => exact (along_cons_iff.mp stays).1
  | cons a rest => exact (along_cons_iff.mp stays).1

/-- From `s` to `t` the broadcast reaches every staying client but the sender once, and the
sender never. -/
def ReachesOnce (c : Nat) (fd : Fd) (message : ByteString) (s : State) (actions : List Action)
    (t : State) : Prop :=
  (∀ x, x ≠ fd → Stays c x s actions → sent c message x t = sent c message x s + 1) ∧
    sent c message fd t = sent c message fd s

/-- For each staying client the copies listed when the loop starts, and those the other
threads bring ahead of the loop, exceed those they take away from there by one. -/
def InBalance (c : Nat) (fd : Fd) (s : State) (actions : List Action) : Prop :=
  ∀ x, x ≠ fd → Stays c x s actions → s.tcpClients.live.count x + drift c x s actions = 1

/-- At the end of the loop no position is ahead of it. -/
theorem ahead_at_end {c : Nat} {fd : Fd} {message : ByteString} {cursor stop : Nat}
    {s t : State} (here : InLoop c fd message cursor stop s)
    (moved : step s (.handler c .endBroadcast) = some t) :
    (∀ x, ahead c x s = 0) ∧ t.relays = s.relays := by
  obtain ⟨h, held, moved⟩ := Option.bind_eq_some_iff.mp moved
  obtain rfl := Option.some.inj (held.symm.trans here)
  simp only [handlerMove, Option.ite_none_left_eq_some, Option.some.injEq] at moved
  obtain ⟨finished, rfl⟩ := moved
  refine ⟨fun x => ?_, rfl⟩
  rw [ahead_eq here, SlotVector.window_eq_nil (by omega), List.count_nil]

/-- A broadcast reaches the staying clients once exactly when the list operations of the
other threads leave each of them in balance ahead of the loop. -/
theorem reaches_once_iff_in_balance {c : Nat} {fd : Fd} {message : ByteString}
    {actions : List Action} {s t : State} (reachable : Reachable step initial s)
    (begins : InLoop c fd message 0 s.tcpClients.size s)
    (inside : ∀ a ∈ actions, endsLoop c a = false)
    (path : run step s (wholeLoop c actions) = some t) :
    ReachesOnce c fd message s actions t ↔ InBalance c fd s actions := by
  obtain ⟨mid, path, ends⟩ := run_snoc_iff.mp path
  obtain ⟨⟨later, here⟩, silent, total⟩ :=
    loop_account (reachable_numbered reachable) begins path inside
  obtain ⟨finished, relays⟩ := ahead_at_end here ends
  have account : ∀ x, x ≠ fd → (sent c message x t : Int) =
      sent c message x s + (s.tcpClients.live.count x + drift c x s actions) := by
    intro x hx
    have sum := total x hx
    rw [finished, ahead_eq begins, SlotVector.window_zero_size] at sum
    rw [sent, relays, ← sent]
    omega
  constructor
  · intro reaches x hx stays
    have once := reaches.1 x hx stays
    have sum := account x hx
    omega
  · intro balance
    refine ⟨fun x hx stays => ?_, by rw [sent, relays]; exact silent⟩
    have one := balance x hx stays
    have sum := account x hx
    omega

/-- Every loop has fixed its end inside the storage, so no position it comes to is missing. -/
def Stored (s : State) : Prop :=
  ∀ c fd message cursor stop, InLoop c fd message cursor stop s →
    stop ≤ s.tcpClients.slots.length

/-- A step that keeps the storage and starts no loop keeps the ends inside. -/
theorem Stored.of_views {s t : State} (stored : Stored s)
    (grows : s.tcpClients.slots.length ≤ t.tcpClients.slots.length)
    (loops : ∀ c fd message cursor stop, InLoop c fd message cursor stop t →
      ∃ earlier, InLoop c fd message earlier stop s) : Stored t := by
  intro c fd message cursor stop here
  obtain ⟨earlier, before⟩ := loops c fd message cursor stop here
  exact (stored c fd message earlier stop before).trans grows

theorem goto_stored {s : State} {c : Nat} {h : Handler} {pc : HandlerPc} (stored : Stored s)
    (inside : ∀ message cursor stop, pc = .relaying message cursor stop →
      stop ≤ s.tcpClients.slots.length) : Stored (s.goto c h pc) := by
  intro d fd message cursor stop here
  by_cases same : d = c
  · subst d
    have place := Option.some.inj ((handler_goto s c h pc).symm.trans here)
    exact inside message cursor stop (congrArg Handler.pc place)
  · exact stored d fd message cursor stop ((handler_goto_of_ne s h pc same).symm.trans here)

theorem handler_stored {s t : State} {c : Nat} {a : HandlerAction} (stored : Stored s)
    (moved : handlerStep s c a = some t) : Stored t := by
  obtain ⟨h, held, effect⟩ := handlerStep_effect moved
  cases effect with
  | moves _ pc relays running alive sends fixed =>
    have next : Stored (s.goto c h pc) := by
      apply goto_stored stored
      intro message cursor stop at_loop
      rcases fixed message cursor stop at_loop with rfl | ⟨earlier, before⟩
      · exact s.tcpClients.size_le
      · apply stored c h.clientSocket message earlier stop
        rw [InLoop, held, ← before]
    exact next
  | closes leaving =>
    have closed : Stored (s.closeNumber h.clientSocket) := stored
    apply goto_stored closed
    rintro _ _ _ ⟨⟩
  | erases closed =>
    have next : Stored (s.goto c h .ended) := by
      apply goto_stored stored
      rintro _ _ _ ⟨⟩
    apply next.of_views
    · exact (SlotVector.length_slots_eraseRemove s.tcpClients h.clientSocket).ge
    · exact fun _ _ _ cursor _ here => ⟨cursor, here⟩

theorem step_stored (s : State) (a : Action) (t : State) (stored : Stored s)
    (moved : step s a = some t) : Stored t := by
  cases a with
  | control a =>
    have frame := controlStep_frame moved
    apply stored.of_views
    · rcases frame.clients with same | ⟨_, cleared⟩
      · rw [same]
      · rw [cleared, SlotVector.clear]
    · intro c fd message cursor stop here
      exact ⟨cursor, (congrFun frame.handler c).symm.trans here⟩
  | listener a =>
    cases listenerStep_effect moved with
    | moves _ pc present before after => exact stored
    | accepts x waiting free => exact stored
    | adopts d x waiting =>
      apply stored.of_views
      · exact SlotVector.length_slots_pushBack s.tcpClients x
      · intro c fd message cursor stop here
        by_cases same : c = d
        · subst c
          have new : (s.adopt d x).handler d = some ⟨x, .loopTest⟩ := Function.update_self _ _ _
          cases new.symm.trans here
        · exact ⟨cursor, (Function.update_of_ne same _ _).symm.trans here⟩
  | handler c a => exact handler_stored stored moved

theorem reachable_stored {s : State} (reachable : Reachable step initial s) : Stored s := by
  apply reachable_invariant step_stored _ reachable
  rintro c fd message cursor stop ⟨⟩

/-- A handler in its loop that is scheduled alone comes to the end of the loop. -/
theorem loop_finishes {c : Nat} {fd : Fd} {message : ByteString} {cursor stop : Nat} {s : State}
    (reachable : Reachable step initial s) (here : InLoop c fd message cursor stop s) :
    ∃ t, run step s (wholeLoop c (List.replicate (stop - cursor) (.handler c .relay))) = some t ∧
      t.handler c = some ⟨fd, .loopTest⟩ := by
  generalize left : stop - cursor = n
  induction n generalizing s cursor with
  | zero =>
    have finished : ¬ cursor < stop := by omega
    refine ⟨s.goto c ⟨fd, .relaying message cursor stop⟩ .loopTest,
      run_snoc_iff.mpr ⟨s, rfl, ?_⟩, handler_goto _ _ _ _⟩
    rw [step, handlerStep, here, Option.bind_some, handlerMove, if_neg finished]
  | succ n ih =>
    have more : cursor < stop := by omega
    have bound := reachable_stored reachable c fd message cursor stop here
    obtain ⟨mid, moved⟩ : ∃ mid, step s (.handler c .relay) = some mid := by
      rw [step, handlerStep, here, Option.bind_some, handlerMove, if_pos more,
        List.getElem?_eq_getElem (by omega), Option.map_some]
      exact ⟨_, rfl⟩
    obtain ⟨t, path, ends⟩ := ih (reachable.step_to moved) (relay_step here moved).1 (by omega)
    exact ⟨t, run_cons_iff.mpr ⟨mid, moved, path⟩, ends⟩

def removes : Action → Bool
  | .handler _ .erase => true
  | .control .clearClients => true
  | _ => false

theorem step_clients {s t : State} {a : Action} (moved : step s a = some t)
    (keeps : removes a = false) :
    t.tcpClients = s.tcpClients ∨ ∃ fd, t.tcpClients = s.tcpClients.pushBack fd := by
  cases a with
  | control a =>
    rcases (controlStep_frame moved).clients with same | ⟨rfl, _⟩
    · exact Or.inl same
    · cases keeps
  | listener a =>
    cases listenerStep_effect moved with
    | moves _ pc present before after => exact Or.inl rfl
    | accepts x waiting free => exact Or.inl rfl
    | adopts d x waiting => exact Or.inr ⟨x, rfl⟩
  | handler d a =>
    obtain ⟨h, _, effect⟩ := handlerStep_effect moved
    cases effect with
    | moves _ pc relays running alive sends fixed => exact Or.inl rfl
    | closes leaving => exact Or.inl rfl
    | erases closed => cases keeps

/-- If nobody leaves during the loop, the positions ahead of it are undisturbed. -/
theorem drift_without_leavers {c : Nat} {fd : Fd} {message : ByteString} {stop : Nat}
    {actions : List Action} {cursor : Nat} {s t : State} (numbered : Numbered s)
    (here : InLoop c fd message cursor stop s) (listed : stop ≤ s.tcpClients.size)
    (path : run step s actions = some t)
    (inside : ∀ a ∈ actions, endsLoop c a = false ∧ removes a = false) (x : Fd) :
    drift c x s actions = 0 := by
  induction actions generalizing s cursor with
  | nil => rfl
  | cons a rest ih =>
    obtain ⟨mid, moved, onward⟩ := run_cons_iff.mp path
    obtain ⟨not_end, keeps⟩ := inside a List.mem_cons_self
    have tail : ∀ b ∈ rest, endsLoop c b = false ∧ removes b = false := fun b hb =>
      inside b (List.mem_cons_of_mem a hb)
    have apart := step_numbered s a mid numbered moved
    have clients := step_clients moved keeps
    have still : stop ≤ mid.tcpClients.size := by
      rcases clients with same | ⟨new, pushed⟩
      · rwa [same]
      · rw [pushed]
        exact listed.trans (Nat.le_succ _)
    by_cases relays : isRelay c a = true
    · obtain rfl := isRelay_iff.mp relays
      obtain ⟨next, _⟩ := relay_step here moved
      simp only [drift, moved, relays, if_true]
      rw [ih apart next still onward tail, Int.add_zero]
    · rw [Bool.not_eq_true] at relays
      obtain ⟨next, _⟩ := other_step numbered here moved relays not_end
      have undisturbed : ahead c x mid = ahead c x s := by
        rw [ahead_eq next, ahead_eq here]
        rcases clients with same | ⟨new, pushed⟩
        · rw [same]
        · rw [pushed, SlotVector.window_pushBack new listed]
      simp only [drift, moved, relays]
      simp only [Bool.false_eq_true, if_false]
      rw [undisturbed, ih apart next still onward tail]
      omega

/-- With connects but no disconnects during the loop everybody stays in balance. -/
theorem in_balance_without_leavers {c : Nat} {fd : Fd} {message : ByteString}
    {actions : List Action} {s t : State} (reachable : Reachable step initial s)
    (begins : InLoop c fd message 0 s.tcpClients.size s) (distinct : s.tcpClients.live.Nodup)
    (inside : ∀ a ∈ actions, endsLoop c a = false ∧ removes a = false)
    (path : run step s (wholeLoop c actions) = some t) : InBalance c fd s actions := by
  obtain ⟨mid, path, _⟩ := run_snoc_iff.mp path
  intro x _ stays
  rw [drift_without_leavers (reachable_numbered reachable) begins le_rfl path inside x,
    List.count_eq_one_of_mem distinct (stays_listed stays)]
  rfl

/-- Clients 4, 5, 6 and 7 connect, and the first has its message acknowledged. -/
def connects : List Action :=
  [.control (.start 3)] ++
    ([4, 5, 6, 7].flatMap fun fd =>
      [.listener .test, .listener (.accept fd), .listener .pushBack]) ++
    [.handler 0 .test, .handler 0 (.recv [104, 105]), .handler 0 .ack,
     .handler 0 .beginBroadcast]

/-- A fifth client connects while the loop runs. -/
def undisturbedLoop : List Action :=
  [.handler 0 .relay, .handler 0 .relay, .listener .test, .listener (.accept 8),
   .listener .pushBack, .handler 0 .relay, .handler 0 .relay]

theorem reaches_once_undisturbed :
    ∃ s t, run step initial connects = some s ∧
      run step s (wholeLoop 0 undisturbedLoop) = some t ∧
      ReachesOnce 0 4 [104, 105] s undisturbedLoop t := by
  obtain ⟨s, path⟩ : ∃ s, run step initial connects = some s := ⟨_, rfl⟩
  obtain ⟨t, loop⟩ : ∃ t, run step s (wholeLoop 0 undisturbedLoop) = some t := by
    cases path
    exact ⟨_, rfl⟩
  have begins : InLoop 0 4 [104, 105] 0 s.tcpClients.size s := by
    cases path
    rfl
  have distinct : s.tcpClients.live.Nodup := by
    cases path
    decide
  refine ⟨s, t, path, loop, (reaches_once_iff_in_balance ⟨_, path⟩ begins (by decide) loop).mpr ?_⟩
  exact in_balance_without_leavers ⟨_, path⟩ begins distinct (by decide) loop

/-- Client 5 leaves after it has been sent the message: the list becomes 4, 6, 7 under the
cursor, and the slot behind it still holds 7. -/
def disturbedLoop : List Action :=
  [.handler 0 .relay, .handler 0 .relay, .handler 1 .test, .handler 1 .recvFails,
   .handler 1 .close, .handler 1 .erase, .handler 0 .relay, .handler 0 .relay]

/-- Client 6 stays and is skipped, client 7 stays and is served twice. -/
theorem broadcast_skips_and_repeats :
    ∃ s t, run step initial connects = some s ∧ InLoop 0 4 [104, 105] 0 s.tcpClients.size s ∧
      run step s (wholeLoop 0 disturbedLoop) = some t ∧
      Stays 0 6 s disturbedLoop ∧ sent 0 [104, 105] 6 t = 0 ∧
      Stays 0 7 s disturbedLoop ∧ sent 0 [104, 105] 7 t = 2 ∧
      ¬ ReachesOnce 0 4 [104, 105] s disturbedLoop t := by
  refine ⟨_, _, rfl, rfl, rfl, by decide, by decide, by decide, by decide, ?_⟩
  rintro ⟨once, _⟩
  have skipped := once 6 (by decide) (by decide)
  revert skipped
  decide

end Broadcast
