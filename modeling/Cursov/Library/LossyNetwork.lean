import Mathlib.Data.List.Count
import Mathlib.Data.List.Perm.Basic

/-!
# A network that loses, copies and reorders

What is posted is in flight until it is taken or lost, in whatever order; copies may
turn up of what is in flight. What is lost and what is copied is recorded, so that
everything that was ever posted or copied is accounted for.
-/

namespace LossyNetwork

universe u

variable {Mail : Type u}

structure Network (Mail : Type u) where
  inFlight : List Mail
  lost : List Mail
  copied : List Mail

namespace Network

def empty : Network Mail := ⟨[], [], []⟩

def post (n : Network Mail) (mails : List Mail) : Network Mail :=
  { n with inFlight := n.inFlight ++ mails }

/-- The mail at a place leaves the network. -/
def take (n : Network Mail) (k : Nat) : Option (Mail × Network Mail) :=
  n.inFlight[k]?.map fun mail => (mail, { n with inFlight := n.inFlight.eraseIdx k })

def lose (n : Network Mail) (k : Nat) : Option (Network Mail) :=
  n.inFlight[k]?.map fun mail =>
    { n with inFlight := n.inFlight.eraseIdx k, lost := n.lost ++ [mail] }

def copy (n : Network Mail) (k : Nat) : Option (Network Mail) :=
  n.inFlight[k]?.map fun mail =>
    { n with inFlight := n.inFlight ++ [mail], copied := n.copied ++ [mail] }

/-- The mails of a kind that are in the network or lost in it. -/
def held (p : Mail → Bool) (n : Network Mail) : Nat := n.inFlight.countP p + n.lost.countP p

/-- The mails of a kind that the network has added itself. -/
def made (p : Mail → Bool) (n : Network Mail) : Nat := n.copied.countP p

@[simp] theorem held_empty (p : Mail → Bool) : held p (empty : Network Mail) = 0 := rfl

@[simp] theorem made_empty (p : Mail → Bool) : made p (empty : Network Mail) = 0 := rfl

@[simp] theorem held_post (p : Mail → Bool) (n : Network Mail) (mails : List Mail) :
    held p (n.post mails) = held p n + mails.countP p := by
  simp only [held, post, List.countP_append]
  omega

@[simp] theorem made_post (p : Mail → Bool) (n : Network Mail) (mails : List Mail) :
    made p (n.post mails) = made p n := rfl

theorem countP_eraseIdx (p : Mail → Bool) {mails : List Mail} {k : Nat} {mail : Mail}
    (there : mails[k]? = some mail) :
    mails.countP p = (mails.eraseIdx k).countP p + if p mail then 1 else 0 := by
  obtain ⟨within, rfl⟩ := List.getElem?_eq_some_iff.mp there
  rw [← (List.getElem_cons_eraseIdx_perm within).countP_eq p, List.countP_cons]

/-- What `take` returns is one less of its kind in the network. -/
theorem take_account {n n' : Network Mail} {k : Nat} {mail : Mail}
    (taken : n.take k = some (mail, n')) (p : Mail → Bool) :
    held p n = held p n' + (if p mail then 1 else 0) ∧ made p n' = made p n := by
  obtain ⟨found, there, same⟩ := Option.map_eq_some_iff.mp taken
  obtain ⟨rfl, rfl⟩ := Prod.mk.inj same
  refine ⟨?_, rfl⟩
  have one := countP_eraseIdx p there
  simp only [held]
  omega

theorem lose_account {n n' : Network Mail} {k : Nat} (moved : n.lose k = some n')
    (p : Mail → Bool) : held p n' = held p n ∧ made p n' = made p n := by
  obtain ⟨mail, there, rfl⟩ := Option.map_eq_some_iff.mp moved
  refine ⟨?_, rfl⟩
  have one := countP_eraseIdx p there
  simp only [held, List.countP_append, List.countP_singleton]
  omega

theorem copy_account {n n' : Network Mail} {k : Nat} (moved : n.copy k = some n')
    (p : Mail → Bool) : held p n' + made p n = held p n + made p n' := by
  obtain ⟨mail, there, rfl⟩ := Option.map_eq_some_iff.mp moved
  simp only [held, made, List.countP_append, List.countP_singleton]
  omega

/-- All that is in flight was posted by someone who may. -/
def Only (good : Mail → Prop) (n : Network Mail) : Prop := ∀ mail ∈ n.inFlight, good mail

theorem only_empty (good : Mail → Prop) : Only good (empty : Network Mail) :=
  List.forall_mem_nil good

theorem Only.mono {good fine : Mail → Prop} {n : Network Mail} (only : Only good n)
    (implies : ∀ mail, good mail → fine mail) : Only fine n :=
  fun mail there => implies mail (only mail there)

theorem Only.post {good : Mail → Prop} {n : Network Mail} (only : Only good n)
    {mails : List Mail} (posted : ∀ mail ∈ mails, good mail) : Only good (n.post mails) :=
  List.forall_mem_append.mpr ⟨only, posted⟩

theorem Only.take {good : Mail → Prop} {n n' : Network Mail} (only : Only good n) {k : Nat}
    {mail : Mail} (taken : n.take k = some (mail, n')) : good mail ∧ Only good n' := by
  obtain ⟨found, there, same⟩ := Option.map_eq_some_iff.mp taken
  obtain ⟨rfl, rfl⟩ := Prod.mk.inj same
  exact ⟨only _ (List.mem_of_getElem? there),
    fun other mem => only other (List.mem_of_mem_eraseIdx mem)⟩

theorem Only.lose {good : Mail → Prop} {n n' : Network Mail} (only : Only good n) {k : Nat}
    (moved : n.lose k = some n') : Only good n' := by
  obtain ⟨mail, there, rfl⟩ := Option.map_eq_some_iff.mp moved
  exact fun other mem => only other (List.mem_of_mem_eraseIdx mem)

theorem Only.copy {good : Mail → Prop} {n n' : Network Mail} (only : Only good n) {k : Nat}
    (moved : n.copy k = some n') : Only good n' := by
  obtain ⟨mail, there, rfl⟩ := Option.map_eq_some_iff.mp moved
  refine List.forall_mem_append.mpr ⟨only, ?_⟩
  rintro other mem
  rw [List.mem_singleton.mp mem]
  exact only mail (List.mem_of_getElem? there)

end Network

end LossyNetwork
