import Fixus.Lib.Run
import Mathlib.Logic.Function.Basic

/-!
# Publish and subscribe

Messages are published on channels, and whoever listens to a channel at that time is offered them. What is read of them,
and when, is up to the service between the two; what it promises is a condition on runs.

- `Hub.move`: who listens where, what each of them has been offered since, and what it has read;
- `Hub.Delivers`: the service hands over what was offered, up to a relation;
- `Hub.delivered_run`: so much of the offers has been read in every such run;
- `Hub.offered_run`: what a run offers to a client.
-/

namespace Lib

/-- A client begins or stops to listen or reads a message, or a message is published. -/
inductive HubMove (ι κ μ : Type*) where
  | listen (client : ι) (channel : κ)
  | leave (client : ι)
  | publish (channel : κ) (message : μ)
  | read (client : ι) (message : μ)

/-- Where each client listens, what it has been offered there, and what it has read. -/
structure Hub (ι κ μ : Type*) where
  channel : ι → Option κ := fun _ => none
  offered : ι → List μ := fun _ => []
  received : ι → List μ := fun _ => []

variable {ι κ μ : Type*} [DecidableEq ι] [DecidableEq κ] {h : Hub ι κ μ} {client : ι} {channel : κ}

/-- The client that begins to listen. -/
def HubMove.listener : HubMove ι κ μ → Option ι
  | .listen client _ => some client
  | _ => none

/-- What the move publishes on the channel. -/
def HubMove.on (channel : κ) : HubMove ι κ μ → Option μ
  | .publish k message => if k = channel then some message else none
  | _ => none

/-- One move; who does not listen reads nothing. -/
def Hub.move (h : Hub ι κ μ) : HubMove ι κ μ → Hub ι κ μ
  | .listen client channel =>
    { channel := Function.update h.channel client (some channel)
      offered := Function.update h.offered client []
      received := Function.update h.received client [] }
  | .leave client => { h with channel := Function.update h.channel client none }
  | .publish channel message =>
    { h with offered := fun c => if h.channel c = some channel then h.offered c ++ [message] else h.offered c }
  | .read client message =>
    if (h.channel client).isSome then
      { h with received := Function.update h.received client (h.received client ++ [message]) }
    else h

namespace Hub

/-! ## Delivery -/

/-- The service hands a message over only if what has then been read stands in the relation to what was offered. -/
abbrev Delivers (R : List μ → List μ → Prop) (h : Hub ι κ μ) : HubMove ι κ μ → Prop
  | .read client message => (h.channel client).isSome → R (h.received client ++ [message]) (h.offered client)
  | _ => True

instance Delivers.decidable (R : List μ → List μ → Prop) [∀ l l', Decidable (R l l')] (h : Hub ι κ μ)
    (m : HubMove ι κ μ) : Decidable (Delivers R h m) := by
  cases m <;> unfold Delivers <;> infer_instance

variable {R : List μ → List μ → Prop}

/-- One move delivers so much. -/
theorem delivered_move (hnil : ∀ l, R [] l) (hgrow : ∀ l l' m, R l l' → R l (l' ++ [m])) {m : HubMove ι κ μ}
    (hr : ∀ c, R (h.received c) (h.offered c)) (hm : Delivers R h m) (c : ι) :
    R ((h.move m).received c) ((h.move m).offered c) := by
  cases m with
  | listen client k =>
    simp only [move]
    by_cases hc : c = client
    · subst hc
      simpa using hnil []
    · simpa [Function.update_of_ne hc] using hr c
  | leave client => exact hr c
  | publish k message =>
    show R (h.received c) (if h.channel c = some k then h.offered c ++ [message] else h.offered c)
    split
    · exact hgrow _ _ _ (hr c)
    · exact hr c
  | read client message =>
    simp only [move]
    split
    · next hlistens =>
      by_cases hc : c = client
      · subst hc
        simpa using hm hlistens
      · simpa [Function.update_of_ne hc] using hr c
    · exact hr c

/-- **What has been read stands in the relation to what was offered**, in every run that delivers so. -/
theorem delivered_run (hnil : ∀ l, R [] l) (hgrow : ∀ l l' m, R l l' → R l (l' ++ [m])) {moves : List (HubMove ι κ μ)}
    (hm : Meets move (Delivers R) ({} : Hub ι κ μ) moves) (c : ι) :
    R ((run move ({} : Hub ι κ μ) moves).received c) ((run move ({} : Hub ι κ μ) moves).offered c) :=
  run_invariant (fun h : Hub ι κ μ => ∀ c, R (h.received c) (h.offered c))
    (fun _ _ hr hm => delivered_move hnil hgrow hr hm) (fun _ => hnil _) hm c

/-! ## Offers -/

/-- A client that listens is offered what is published on its channel, until it leaves. -/
theorem move_offered (hl : h.channel client = some channel) {m : HubMove ι κ μ} (hm : m.listener ≠ some client) :
    (h.move m).offered client = h.offered client ++ (m.on channel).toList ∧
      ((h.move m).channel client = some channel ∨ (h.move m).channel client = none) := by
  cases m with
  | listen other k =>
    have hne : client ≠ other := fun heq => hm (by rw [heq]; rfl)
    exact ⟨(Function.update_of_ne hne _ _).trans (List.append_nil _).symm,
      Or.inl ((Function.update_of_ne hne _ _).trans hl)⟩
  | leave other =>
    refine ⟨(List.append_nil _).symm, ?_⟩
    by_cases hc : client = other
    · subst hc
      exact Or.inr (Function.update_self ..)
    · exact Or.inl ((Function.update_of_ne hc _ _).trans hl)
  | publish k message =>
    refine ⟨?_, Or.inl hl⟩
    by_cases hk : channel = k
    · simp [move, HubMove.on, hl, hk]
    · simp [move, HubMove.on, hl, hk, Ne.symm hk]
  | read other message =>
    simp only [move]
    split <;> exact ⟨(List.append_nil _).symm, Or.inl hl⟩

/-- A client that has left is offered nothing. -/
theorem offered_left (hl : h.channel client = none) {moves : List (HubMove ι κ μ)}
    (hmoves : ∀ m ∈ moves, m.listener ≠ some client) : (run move h moves).offered client = h.offered client := by
  induction moves generalizing h with
  | nil => rfl
  | cons m moves ih =>
    obtain ⟨hm, hmoves⟩ := List.forall_mem_cons.mp hmoves
    have hstep : (h.move m).offered client = h.offered client ∧ (h.move m).channel client = none := by
      cases m with
      | listen other k =>
        have hne : client ≠ other := fun heq => hm (by rw [heq]; rfl)
        exact ⟨Function.update_of_ne hne _ _, (Function.update_of_ne hne _ _).trans hl⟩
      | leave other =>
        refine ⟨rfl, ?_⟩
        by_cases hc : client = other
        · subst hc
          exact Function.update_self ..
        · exact (Function.update_of_ne hc _ _).trans hl
      | publish k message => exact ⟨if_neg (by rw [hl]; exact fun h => by cases h), hl⟩
      | read other message =>
        simp only [move]
        split <;> exact ⟨rfl, hl⟩
    rw [run_cons, ih hstep.2 hmoves, hstep.1]

/-- **A run offers a client what is published on its channel**, in this order and from the first message on. -/
theorem offered_run (hl : h.channel client = some channel) {moves : List (HubMove ι κ μ)}
    (hmoves : ∀ m ∈ moves, m.listener ≠ some client) :
    (run move h moves).offered client <+: h.offered client ++ moves.filterMap (HubMove.on channel) := by
  induction moves generalizing h with
  | nil => exact List.prefix_append _ _
  | cons m moves ih =>
    obtain ⟨hm, hmoves⟩ := List.forall_mem_cons.mp hmoves
    obtain ⟨hoffered, hchannel⟩ := move_offered hl hm
    have hcons : h.offered client ++ (m :: moves).filterMap (HubMove.on channel) =
        (h.move m).offered client ++ moves.filterMap (HubMove.on channel) := by
      rw [hoffered, List.filterMap_cons, List.append_assoc]
      cases m.on channel <;> rfl
    rw [run_cons, hcons]
    rcases hchannel with hchannel | hleft
    · exact ih hchannel hmoves
    · rw [offered_left hleft hmoves]
      exact List.prefix_append _ _

end Hub

end Lib
