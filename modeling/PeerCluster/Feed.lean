import PeerCluster.MemberEvent

/-!
# The feed of events

Subscribers are called with every event, in the order in which they subscribed. An event reaches the
subscribers of the moment in which it is published, whatever they subscribe or cancel meanwhile.

The list of subscribers is guarded by a lock for many readers or one writer. Subscribing waits for
the lock. Cancelling does not: a cancellation that finds the lock taken is lost.

Subscriptions are numbered with machine words, and after the last number the first one comes again. A
cancellation takes out whatever has its number.
-/

namespace PeerCluster

/-- Names a subscription. -/
structure Subscription where
  number : UInt64
  deriving DecidableEq, Repr

namespace Subscription

/-- The subscription that is handed out after so many others. -/
def after (n : Nat) : Subscription :=
  ⟨.ofNat n⟩

/-- As long as the numbers last, no two subscriptions are the same. -/
theorem after_inj {m n : Nat} (hm : m < UInt64.size) (hn : n < UInt64.size)
    (h : after m = after n) : m = n := by
  have hnumber := congrArg (fun s => s.number.toNat) h
  simp only [after] at hnumber
  rwa [UInt64.toNat_ofNat_of_lt' hm, UInt64.toNat_ofNat_of_lt' hn] at hnumber

end Subscription

/-- What the lock of a feed is doing. -/
inductive Feed.Lock where
  | free
  /-- Somebody reads the list of subscribers. -/
  | reading
  /-- Somebody changes the list of subscribers. -/
  | writing
  deriving DecidableEq, Repr

/-- The subscribers of a feed, each with what it does when called. -/
structure Feed (κ : Type) where
  /-- The number of the next subscription. -/
  next : UInt64 := 0
  subscribers : List (Subscription × κ) := []

namespace Feed

variable {κ : Type}

/-- Adds a subscriber. -/
def subscribe (f : Feed κ) (call : κ) : Subscription × Feed κ :=
  (⟨f.next⟩, ⟨f.next + 1, f.subscribers ++ [(⟨f.next⟩, call)]⟩)

/-- Cancels a subscription while the lock is in the given state. -/
def cancelUnder (lock : Lock) (f : Feed κ) (s : Subscription) : Feed κ :=
  match lock with
  | .free => { f with subscribers := f.subscribers.filter fun e => e.1 != s }
  | .reading | .writing => f

/-- Cancels a subscription while nobody else uses the feed. -/
def cancel (f : Feed κ) (s : Subscription) : Feed κ :=
  f.cancelUnder .free s

/-- A cancellation leaves at most the other subscribers. -/
theorem filter_sublist (front rest : List (Subscription × κ)) (e : Subscription × κ) :
    ((front ++ e :: rest).filter fun e' => e'.1 != e.1).Sublist (front ++ rest) := by
  rw [List.filter_append, List.filter_cons_of_neg (by rw [bne_self_eq_false]; exact Bool.false_ne_true)]
  exact List.filter_sublist.append List.filter_sublist

/-- If no two subscriptions are the same, it leaves all of them. -/
theorem filter_of_nodup {front rest : List (Subscription × κ)} {e : Subscription × κ}
    (h : ((front ++ e :: rest).map Prod.fst).Nodup) :
    (front ++ e :: rest).filter (fun e' => e'.1 != e.1) = front ++ rest := by
  rw [List.map_append, List.map_cons, List.nodup_append, List.nodup_cons] at h
  obtain ⟨-, ⟨hrest, -⟩, hfront⟩ := h
  have hothers : ∀ e' ∈ front ++ rest, e'.1 ≠ e.1 := by
    intro e' he' hsame
    obtain he' | he' := List.mem_append.1 he'
    · exact hfront _ (List.mem_map_of_mem he') _ List.mem_cons_self hsame
    · exact hrest (hsame ▸ List.mem_map_of_mem he')
  rw [List.filter_append, List.filter_cons_of_neg (by rw [bne_self_eq_false]; exact Bool.false_ne_true),
    ← List.filter_append, List.filter_eq_self]
  exact fun e' he' => bne_iff_ne.2 (hothers e' he')

/-- What an event calls that is published now, in order. -/
def calls (f : Feed κ) : List κ :=
  f.subscribers.map Prod.snd

/-- How many subscribers there are. -/
def count (f : Feed κ) : Nat :=
  f.subscribers.length

end Feed

end PeerCluster
